import GymAct.HarnessContracts
import GymAct.Outcomes
import Mathlib.Data.List.Induction

/-!
# Hidden observation keys

`observe` takes the keys its contracts hide out of the state it returns, and then adds the
feedback the session has heard from the rules of the harness. The results of the runtime that
`reset` and `step` hand on (materializations, actuations, verifications) keep the states the
runtime answered, hidden keys included (`secret_verified`).

`hidden_keys_projected` is about a whole run : a hidden key is in no observation, but for the
key of the feedback with the session's own feedback, and a state of any other part of a result
is one that the runtime answered.
-/

namespace GymAct

open Coop Coop.Prog

/-! ## States in results -/

def MaterializationResult.states (result : MaterializationResult) : List Payload :=
  result.observation.toList.map Observation.state

def ActuationResult.states (result : ActuationResult) : List Payload :=
  result.observation.toList.map Observation.state

/-- A call of an operation that returns states. -/
inductive SessionOp
  | reset
  | observe
  | step (action : HarnessAction)

inductive SessionResult
  | reset (result : HarnessResetResult)
  | observed (state : Payload)
  | stepped (result : HarnessStepResult)

namespace SessionResult

/-- What the session shows as its observation. -/
def observations : SessionResult → List Payload
  | reset _ => []
  | observed state => [state]
  | stepped result => [result.observation]

/-- The states of the runtime's results. -/
def handedOn : SessionResult → List Payload
  | reset result =>
    result.materialization.states ++ result.stageResults.flatMap ActuationResult.states ++
      result.stageVerifications.map VerificationResult.observed
  | observed _ => []
  | stepped result =>
    result.actuation.toList.flatMap ActuationResult.states ++
      result.postconditionVerification.toList.map VerificationResult.observed

end SessionResult

/-- The program of an operation. -/
def SessionOp.program (C : Canon) (session : HarnessSession) : SessionOp → HarnessM SessionResult
  | reset => .reset <$> session.reset C
  | observe => .observed <$> session.observe
  | step action => .stepped <$> session.step C action

/-- The states in an answer of the runtime to what changes or verifies an episode. -/
def RuntimeCall.answered : (c : RuntimeCall) → Except Exc c.Value → List Payload
  | .materialize _, .ok result => result.states
  | .act _, .ok result => result.states
  | .verify .., .ok result => [result.observed]
  | _, _ => []

/-! ## Runs -/

/-- A session so far, with the calls it made of the runtime and what its operations returned. -/
structure SessionRun where
  state : SessionState := {}
  log : Log harnessSig := []
  results : List (Except Exc SessionResult) := []

namespace SessionRun

variable (C : Canon) (session : HarnessSession) (ω : Oracle harnessSig)

/-- One operation, whatever it returns or raises. -/
def step (r : SessionRun) (op : SessionOp) : SessionRun where
  state := (exec ω (op.program C session) r.state r.log).2.1
  log := (exec ω (op.program C session) r.state r.log).2.2
  results := r.results ++ [(exec ω (op.program C session) r.state r.log).1]

/-- A run of operations on a new session. -/
def run (ops : List SessionOp) : SessionRun := ops.foldl (step C session ω) {}

theorem run_snoc (ops : List SessionOp) (op : SessionOp) :
    run C session ω (ops ++ [op]) = (run C session ω ops).step C session ω op := by
  simp [run]

end SessionRun

/-! ## What each operation shows -/

namespace HarnessSession

/-- Feedback of the rules of the harness. -/
def FromRules (session : HarnessSession) (texts : List String) : Prop :=
  ∀ text ∈ texts, ∃ rule ∈ session.contractRules, rule.feedback = some text

/-- No key the contracts hide, but for the feedback of the session under its key. -/
def Redacted (session : HarnessSession) (state : Payload) : Prop :=
  ∀ key ∈ session.hiddenKeys, ∀ value, (key, value) ∈ state →
    key = "_envharness_feedback" ∧ ∃ texts, texts ≠ [] ∧ session.FromRules texts ∧
      value = .ofStrings texts

theorem FromRules.append {session : HarnessSession} {texts more : List String}
    (h : session.FromRules texts) (h' : session.FromRules more) :
    session.FromRules (texts ++ more) := fun text ht =>
  (List.mem_append.mp ht).elim (h text) (h' text)

theorem FromRules.heard {session : HarnessSession} {texts : List String} {rule : ContractRule}
    (h : session.FromRules texts) (hrule : rule ∈ session.contractRules) :
    session.FromRules (heard texts rule.feedback) := by
  unfold HarnessSession.heard
  split
  · exact h
  · exact h
  · next text _ htext =>
    exact h.append fun _ ht => ⟨rule, hrule, htext.trans (congrArg some (List.mem_singleton.mp ht).symm)⟩

theorem mem_pop {d : Payload} {key : String} {item : String × Value} :
    item ∈ d.pop key ↔ item ∈ d ∧ item.1 ≠ key := by simp [Payload.pop]

theorem mem_foldl_pop {item : String × Value} {keys : List String} {d : Payload} :
    item ∈ keys.foldl Payload.pop d ↔ item ∈ d ∧ item.1 ∉ keys := by
  induction keys generalizing d with
  | nil => simp
  | cons key keys ih => simp only [List.foldl_cons, ih, mem_pop, List.mem_cons, not_or, and_assoc]

theorem mem_set {d : Payload} {key : String} {value : Value} {item : String × Value}
    (h : item ∈ d.set key value) : item = (key, value) ∨ item ∈ d := by
  unfold Payload.set at h
  split at h
  · obtain ⟨old, hold, rfl⟩ := List.mem_map.mp h
    split
    · exact Or.inl rfl
    · exact Or.inr hold
  · simpa [or_comm] using h

variable {C : Canon} {session : HarnessSession} {P : Payload → Prop} {α : Type}

/-- `p` hears only the rules of the harness, and returns what satisfies `Q`, as long as the states
the runtime answers satisfy `P`. -/
abbrev Shows (session : HarnessSession) (P : Payload → Prop) (Q : α → Prop) (p : HarnessM α) :
    Prop :=
  Yields (S := harnessSig) (fun c r => ∀ d ∈ c.answered r, P d)
    (fun s => session.FromRules s.feedback) Q p

theorem shows_call (c : RuntimeCall) : Shows session P (fun v => ∀ d ∈ c.answered (.ok v), P d) (call c) :=
  Yields.bind (Q := fun r => ∀ d ∈ c.answered r, P d) (.awaitCall fun _ h => h) fun _ h =>
    .lift fun _ heq => heq ▸ h

theorem shows_callNow (c : RuntimeCall) : Shows session P (fun _ => True) (callNow c) :=
  Yields.bind (Q := fun _ => True) (.askCall fun _ _ => trivial) fun _ _ => .lift fun _ _ => trivial

theorem shows_digestOrRaise (d : Except PyError String) :
    Shows session P (fun _ => True) (digestOrRaise d) := .lift fun _ _ => trivial

theorem shows_episode : Shows session P (fun _ => True) episode :=
  Yields.bind .getState fun s _ => by
    split
    · exact .raise _
    · exact .pure trivial

theorem shows_capability (capabilityRef : String) :
    Shows session P (fun _ => True) (capability capabilityRef) :=
  shows_episode.bind fun _ _ => (shows_callNow _).bind fun _ _ => .pure trivial

theorem shows_rollback (checkpoint : Payload) :
    Shows session P (fun _ => True) (rollback session checkpoint) :=
  shows_episode.bind fun _ _ => (shows_call _).mono fun _ _ => trivial

theorem shows_teardown : Shows session P (fun _ => True) (teardown session) :=
  shows_episode.bind fun _ _ => (shows_call _).bind fun receipt _ => by
    split
    · exact Yields.bind (.modify fun _ h => h) fun _ _ => .pure trivial
    · exact .pure trivial

theorem shows_verify (expected : Option Payload) :
    Shows session P (fun v => P v.observed) (verify session expected) :=
  shows_episode.bind fun _ _ => (shows_call _).mono fun _ h => h _ List.mem_cons_self

theorem shows_validated (dump : Value) (intent : α) :
    Shows session P (fun _ => True) (validated C dump intent) := by
  unfold validated
  split
  · exact .raise _
  · exact .pure trivial

theorem shows_actuate (action : HarnessAction) :
    Shows session P (fun r => ∀ d ∈ r.states, P d) (actuate C session action) :=
  shows_episode.bind fun _ _ => (shows_validated _ _).bind fun intent _ => shows_call (.act intent)

/-! ### `reset` -/

theorem shows_admitStageActions (actions : List HarnessAction) :
    ∀ stageCount, Shows session P (fun _ => True) (admitStageActions actions stageCount) := by
  induction actions with
  | nil => exact fun _ => .pure trivial
  | cons action actions ih =>
    refine fun stageCount => (shows_capability _).bind fun found _ => ?_
    rcases found with _ | capability
    · exact .pure trivial
    · dsimp only
      split
      · exact .pure trivial
      · exact ih _

theorem shows_admitRewrites (stageCount : ℕ) (rules : List ContractRule) :
    ∀ rewriteCount, Shows session P (fun _ => True) (admitRewrites stageCount rules rewriteCount) := by
  induction rules with
  | nil => exact fun _ => .pure trivial
  | cons rule rules ih =>
    intro rewriteCount
    rw [admitRewrites]
    split
    · exact ih _
    · refine (shows_capability _).bind fun found _ => ?_
      rcases found with _ | capability
      · exact .pure trivial
      · exact ih _

theorem shows_admitHarness : Shows session P (fun _ => True) (admitHarness session) :=
  (shows_admitStageActions _ _).bind fun refusal _ => by
    rcases refusal with _ | refusal
    · exact shows_admitRewrites _ _ _
    · exact .pure trivial

/-- The states of a reset's results satisfy `P`. -/
def ShownByReset (P : Payload → Prop) (result : HarnessResetResult) : Prop :=
  ∀ d ∈ (SessionResult.reset result).handedOn, P d

theorem shownByReset_iff {result : HarnessResetResult} :
    ShownByReset P result ↔ (∀ d ∈ result.materialization.states, P d) ∧
      (∀ r ∈ result.stageResults, ∀ d ∈ r.states, P d) ∧
        ∀ v ∈ result.stageVerifications, P v.observed := by
  simp only [ShownByReset, SessionResult.handedOn, List.mem_append, List.mem_flatMap, List.mem_map]
  constructor
  · exact fun h => ⟨fun d hd => h d (Or.inl (Or.inl hd)),
      fun r hr d hd => h d (Or.inl (Or.inr ⟨r, hr, hd⟩)), fun v hv => h _ (Or.inr ⟨v, hv, rfl⟩)⟩
  · rintro ⟨hm, hr, hv⟩ d ((hd | ⟨r, hmem, hd⟩) | ⟨v, hmem, rfl⟩)
    · exact hm d hd
    · exact hr r hmem d hd
    · exact hv v hmem

section Reset

variable {staging : Staging} {results : List ActuationResult} {verifications : List VerificationResult}

theorem shows_failedStageResult (hm : ∀ d ∈ staging.materialization.states, P d)
    (hr : ∀ r ∈ results, ∀ d ∈ r.states, P d) (hv : ∀ v ∈ verifications, P v.observed)
    (standing : Standing) (reason : String) :
    Shows session P (ShownByReset P)
      (failedStageResult session staging results verifications standing reason) :=
  (shows_rollback _).bind fun _ _ => .pure (shownByReset_iff.mpr ⟨hm, hr, hv⟩)

theorem shows_applyStages (hm : ∀ d ∈ staging.materialization.states, P d)
    (actions : List HarnessAction) :
    ∀ {results verifications}, (∀ r ∈ results, ∀ d ∈ ActuationResult.states r, P d) →
      (∀ v ∈ verifications, P (VerificationResult.observed v)) →
        Shows session P (ShownByReset P)
          (applyStages C session staging actions results verifications) := by
  induction actions with
  | nil => exact fun hr hv => .pure (shownByReset_iff.mpr ⟨hm, hr, hv⟩)
  | cons action actions ih =>
    intro results verifications hr hv
    rw [applyStages]
    refine (shows_actuate action).bind fun result hresult => ?_
    have hresults : ∀ r ∈ results ++ [result], ∀ d ∈ r.states, P d :=
      List.forall_mem_append.mpr ⟨hr, List.forall_mem_singleton.mpr hresult⟩
    dsimp only
    split
    · exact shows_failedStageResult hm hresults hv _ _
    · rcases action.expectedAfter with _ | expected
      · exact ih hresults hv
      · refine (shows_verify _).bind fun verified hverified => ?_
        have hverifications : ∀ v ∈ verifications ++ [verified], P v.observed :=
          List.forall_mem_append.mpr ⟨hv, List.forall_mem_singleton.mpr hverified⟩
        dsimp only
        split
        · exact shows_failedStageResult hm hresults hverifications _ _
        · exact ih hresults hverifications

end Reset

theorem shows_priorTeardown : Shows session P (fun _ => True) (priorTeardown session) :=
  Yields.bind .getState fun s _ => by
    split
    · refine shows_teardown.bind fun receipt _ => ?_
      split
      · exact .raise _
      · exact .pure trivial
    · exact .pure trivial

theorem shows_materialize :
    Shows session P (fun m => ∀ d ∈ m.states, P d) (materialize C session) :=
  (shows_callNow _).bind fun _ _ => (shows_validated _ _).bind fun intent _ =>
    shows_call (.materialize intent)

theorem shows_prepare {materialization : MaterializationResult}
    (hm : ∀ d ∈ materialization.states, P d) :
    Shows session P (ShownByReset P) (prepare C session materialization) := by
  refine shows_admitHarness.bind fun admission _ => ?_
  dsimp only
  split
  · refine shows_teardown.bind fun cleanup _ => .pure ?_
    exact shownByReset_iff.mpr ⟨hm, by simp, by simp⟩
  · exact shows_episode.bind fun _ _ => (shows_call _).bind fun baseline _ =>
      shows_applyStages hm _ (by simp) (by simp)

theorem shows_reset : Shows session P (ShownByReset P) (reset C session) := by
  refine shows_priorTeardown.bind fun _ _ => shows_materialize.bind fun materialization hm => ?_
  split
  · refine Yields.bind (.modify fun _ _ => ?_) fun _ _ => shows_prepare hm
    exact fun _ h => absurd h List.not_mem_nil
  · exact .pure (shownByReset_iff.mpr ⟨hm, by simp, by simp⟩)

/-! ### `observe` and `step` -/

theorem redacted_observe (raw : Observation) {texts : List String} (h : session.FromRules texts) :
    Redacted session
      (if texts = [] then (hiddenKeys session).foldl Payload.pop raw.state
        else ((hiddenKeys session).foldl Payload.pop raw.state).set "_envharness_feedback"
          (.ofStrings texts)) := by
  intro key hkey value hitem
  split at hitem
  · exact absurd hkey (mem_foldl_pop.mp hitem).2
  · next htexts =>
    rcases mem_set hitem with heq | hitem
    · obtain ⟨rfl, rfl⟩ := Prod.mk.inj heq
      exact ⟨rfl, texts, htexts, h, rfl⟩
    · exact absurd hkey (mem_foldl_pop.mp hitem).2

theorem shows_rawObserve : Shows session P (fun _ => True) rawObserve :=
  shows_episode.bind fun _ _ => (shows_call _).mono fun _ _ => trivial

theorem shows_observe : Shows session P (Redacted session) (observe session) :=
  shows_rawObserve.bind fun raw _ => Yields.bind .getState fun s hs => by
    have hredacted : Redacted session (if s.feedback = [] then _ else _) :=
      redacted_observe raw hs
    split
    · next h =>
      rw [if_pos h] at hredacted
      exact .pure hredacted
    · next h =>
      rw [if_neg h] at hredacted
      exact .pure hredacted

theorem shows_decisionDigest (action : HarnessAction) (raw : Observation) (admitted : Bool)
    (reason : String) (feedback : List String) :
    Shows session P (fun _ => True) (decisionDigest C session action raw admitted reason feedback) :=
  Yields.bind .getState fun _ _ => (shows_digestOrRaise _).bind fun _ _ => shows_digestOrRaise _

theorem shows_admitRules (raw : Observation) (rules : List ContractRule) :
    ∀ {current reason feedback}, (∀ rule ∈ rules, rule ∈ session.contractRules) →
      session.FromRules feedback → Shows session P (fun d => session.FromRules d.feedback)
        (admitRules C session raw rules current reason feedback) := by
  induction rules with
  | nil => exact fun _ h => (shows_decisionDigest _ _ _ _ _).bind fun _ _ => .pure h
  | cons rule rules ih =>
    intro current reason feedback hrules h
    obtain ⟨hrule, hrules⟩ := List.forall_mem_cons.mp hrules
    refine Yields.bind .getState fun s _ => ?_
    split
    · dsimp only
      split
      · exact (shows_decisionDigest _ _ _ _ _).bind fun _ _ => .pure (h.heard hrule)
      · exact ih hrules (h.heard hrule)
    · exact ih hrules h

theorem shows_admitAction (action : HarnessAction) :
    Shows session P (fun d => session.FromRules d.feedback) (admitAction C session action) :=
  shows_rawObserve.bind fun raw _ =>
    shows_admitRules raw _ (fun _ h => h) fun _ h => absurd h List.not_mem_nil

/-- A step's observation is redacted, and the states of its results satisfy `P`. -/
structure ShownByStep (session : HarnessSession) (P : Payload → Prop) (result : HarnessStepResult) :
    Prop where
  observation : Redacted session result.observation
  actuation : ∀ r ∈ result.actuation, ∀ d ∈ r.states, P d
  verification : ∀ v ∈ result.postconditionVerification, P v.observed

theorem shows_verifyStepPostcondition (action : HarnessAction) :
    Shows session P (fun v => ∀ w ∈ v, P w.observed) (verifyStepPostcondition session action) := by
  rw [verifyStepPostcondition]
  split
  · exact .pure (by simp)
  · exact (shows_verify _).map fun v hv w hw => by
      obtain rfl := Option.mem_some.mp hw
      exact hv

theorem shows_remember (action : HarnessAction) :
    Shows session P (fun _ => True) (remember action) := .modify fun _ h => h

theorem shows_stepRead (decision : ContractDecision) :
    Shows session P (ShownByStep session P) (stepRead session decision) := by
  refine shows_episode.bind fun _ _ => (shows_call _).bind fun _ _ =>
    (shows_verifyStepPostcondition _).bind fun verification hv => ?_
  dsimp only
  split
  · exact shows_observe.bind fun observation ho => .pure ⟨ho, by simp, hv⟩
  · exact (shows_remember _).bind fun _ _ => shows_observe.bind fun observation ho =>
      .pure ⟨ho, by simp, hv⟩

theorem shows_stepCheckpoint (action : HarnessAction) :
    Shows session P (fun _ => True) (stepCheckpoint action) := by
  rw [stepCheckpoint]
  split
  · exact shows_episode.bind fun _ _ => (shows_call _).map fun _ _ => trivial
  · exact .pure trivial

theorem actuated {actuation : ActuationResult} (ha : ∀ d ∈ actuation.states, P d) :
    ∀ r ∈ some actuation, ∀ d ∈ r.states, P d := fun r hr => by
  obtain rfl := Option.mem_some.mp hr
  exact ha

theorem shows_stepRollback {actuation : ActuationResult} {verification : Option VerificationResult}
    (ha : ∀ d ∈ actuation.states, P d) (hv : ∀ v ∈ verification, P v.observed)
    (decision : ContractDecision) (checkpoint : Option Payload) :
    Shows session P (ShownByStep session P)
      (stepRollback session decision actuation verification checkpoint) := by
  rcases checkpoint with _ | checkpoint
  · exact .raise _
  · exact (shows_rollback _).bind fun _ _ => shows_observe.bind fun observation ho =>
      .pure ⟨ho, actuated ha, hv⟩

theorem shows_stepDo (decision : ContractDecision) :
    Shows session P (ShownByStep session P) (stepDo C session decision) := by
  refine (shows_stepCheckpoint _).bind fun checkpoint _ => (shows_actuate _).bind fun actuation ha => ?_
  dsimp only
  split
  · exact shows_observe.bind fun observation ho => .pure ⟨ho, actuated ha, by simp⟩
  · refine (shows_verifyStepPostcondition _).bind fun verification hv => ?_
    dsimp only
    split
    · exact shows_stepRollback ha hv decision checkpoint
    · exact (shows_remember _).bind fun _ _ => shows_observe.bind fun observation ho =>
        .pure ⟨ho, actuated ha, hv⟩

theorem shows_step (action : HarnessAction) :
    Shows session P (ShownByStep session P) (step C session action) := by
  refine (shows_admitAction action).bind fun decision hd =>
    Yields.bind (.modify fun s hs => hs.append hd) fun _ _ => ?_
  split
  · exact shows_observe.bind fun observation ho => .pure ⟨ho, by simp, by simp⟩
  · refine (shows_capability _).bind fun found _ => ?_
    rcases found with _ | capability
    · exact shows_observe.bind fun observation ho => .pure ⟨ho, by simp, by simp⟩
    · dsimp only
      split
      · exact shows_stepRead decision
      · exact shows_stepDo decision

/-! ## Runs -/

/-- What an operation shows : redacted observations, and states that satisfy `P`. -/
structure Shown (session : HarnessSession) (P : Payload → Prop) (result : SessionResult) : Prop where
  observations : ∀ d ∈ result.observations, Redacted session d
  handedOn : ∀ d ∈ result.handedOn, P d

theorem Shown.mono {P' : Payload → Prop} {result : SessionResult} (h : Shown session P result)
    (hP : ∀ d, P d → P' d) : Shown session P' result :=
  ⟨h.observations, fun d hd => hP d (h.handedOn d hd)⟩

theorem ShownByStep.shown {result : HarnessStepResult} (h : ShownByStep session P result) :
    Shown session P (.stepped result) where
  observations d hd := by
    obtain rfl := List.mem_singleton.mp hd
    exact h.observation
  handedOn d hd := by
    simp only [SessionResult.handedOn, List.mem_append, List.mem_flatMap, List.mem_map,
      Option.mem_toList] at hd
    rcases hd with ⟨r, hr, hd⟩ | ⟨v, hv, rfl⟩
    · exact h.actuation r hr d hd
    · exact h.verification v hv

theorem shows_program (op : SessionOp) :
    Shows session P (Shown session P) (op.program C session) := by
  cases op with
  | reset => exact shows_reset.map fun _ h => ⟨by simp [SessionResult.observations], h⟩
  | observe =>
    refine shows_observe.map fun state h => ⟨fun d hd => ?_, by simp [SessionResult.handedOn]⟩
    obtain rfl := List.mem_singleton.mp hd
    exact h
  | step action => exact (shows_step action).map fun _ h => h.shown

/-- A state of an answer of the log. -/
def Answered (log : Log harnessSig) (d : Payload) : Prop :=
  ∃ e ∈ log, d ∈ RuntimeCall.answered e.1 e.2

/-- What holds of a session along a run. -/
structure Redacts (session : HarnessSession) (r : SessionRun) : Prop where
  feedback : session.FromRules r.state.feedback
  shown : ∀ result, .ok result ∈ r.results → Shown session (Answered r.log) result

theorem Redacts.step {ω : Oracle harnessSig} {r : SessionRun} (h : Redacts session r)
    (op : SessionOp) : Redacts session (r.step C session ω op) := by
  obtain ⟨more, hmore⟩ := exec_log ω (op.program C session) r.state r.log
  have hgrows : ∀ d, Answered r.log d → Answered (r.step C session ω op).log d := by
    rintro d ⟨e, he, hd⟩
    exact ⟨e, by rw [SessionRun.step, hmore]; exact List.mem_append_left _ he, hd⟩
  have hshows : Shows session (Answered (r.step C session ω op).log)
      (Shown session (Answered (r.step C session ω op).log)) (op.program C session) :=
    shows_program op
  have hexec := hshows.exec (ω := ω) (s := r.state) h.feedback fun more heq e he d hd =>
    ⟨e, by rw [SessionRun.step, heq]; exact List.mem_append_right _ he, hd⟩
  obtain ⟨hfeedback, hresult⟩ := hexec
  refine ⟨hfeedback, fun result hmem => ?_⟩
  rcases List.mem_append.mp hmem with hmem | hmem
  · exact (h.shown result hmem).mono hgrows
  · exact hresult result (List.mem_singleton.mp hmem).symm

theorem redacts_run (C : Canon) (session : HarnessSession) (ω : Oracle harnessSig)
    (ops : List SessionOp) : Redacts session (SessionRun.run C session ω ops) := by
  induction ops using List.reverseRecOn with
  | nil => exact ⟨fun _ h => absurd h List.not_mem_nil, fun _ h => absurd h List.not_mem_nil⟩
  | append_singleton ops op ih =>
    rw [SessionRun.run_snoc]
    exact ih.step op

/-- Along every run a hidden key is in no observation, but for the feedback of the session under
its key, and every other state in a result is one that the runtime answered. -/
theorem hidden_keys_projected (C : Canon) (session : HarnessSession) (ω : Oracle harnessSig)
    (ops : List SessionOp) {result : SessionResult}
    (h : .ok result ∈ (SessionRun.run C session ω ops).results) :
    (∀ d ∈ result.observations, session.Redacted d) ∧
      ∀ d ∈ result.handedOn, Answered (SessionRun.run C session ω ops).log d :=
  ⟨((redacts_run C session ω ops).shown result h).observations,
    ((redacts_run C session ω ops).shown result h).handedOn⟩

/-! ## A hidden key in a verification -/

/-- A task of a world with a secret that its one contract hides. -/
def secretSession : HarnessSession where
  task :=
    { provider := "memory"
      harness := { contracts := [⟨[], ["secret"], by decide, by decide⟩], identifier := "h" }
      provider_ne := memory_ne }

/-- Something is done, and then the secret is verified. -/
theorem verifiedAction_ne : "SET" ≠ "" := by decide

def verifiedAction : HarnessAction where
  capability := "SET"
  idempotencyKey := "k"
  expectedAfter := some [("secret", .int 7)]
  capability_ne := verifiedAction_ne
  key_ne := GymAct.key_ne

/-- A runtime of a world where the secret is 7. -/
def secretWorld : Oracle harnessSig := fun _ call =>
  match call with
  | .materialize _ => .ok
    { accepted := true, standing := .alive, episode := some ⟨"e", "memory", "env", none, .alive⟩,
      receipt := { episodeId := "e", operation := .materialize, standing := .alive } }
  | .capabilities _ => .ok [⟨"SET", "Set", .do, "set", []⟩]
  | .observe episodeId => .ok ⟨episodeId, [("secret", .int 7)], ""⟩
  | .act intent => .ok
    { accepted := true, standing := .alive,
      receipt := { episodeId := intent.episodeId, operation := .act, standing := .alive } }
  | .verify episodeId expected => .ok ⟨"v", episodeId, true, expected, [("secret", .int 7)], ""⟩
  | .checkpoint _ => .ok [("secret", .int 7)]
  | .uuid4 => .ok "k"
  | _ => .error (runtimeError "NOT_EXPECTED")

theorem secret_stepped : ∃ result, .ok result ∈ (SessionRun.run .reference secretSession secretWorld
    [.reset, .step verifiedAction]).results ∧
      result.observations = [[]] ∧ result.handedOn = [[("secret", .int 7)]] := by
  have hrun : ((SessionRun.run .reference secretSession secretWorld
      [.reset, .step verifiedAction]).results[1]?.bind Except.toOption).map
        (fun result => (result.observations, result.handedOn)) =
          some ([[]], [[("secret", .int 7)]]) := by decide +kernel
  obtain ⟨result, hresult, hpair⟩ := Option.map_eq_some_iff.mp hrun
  obtain ⟨answer, hanswer, hok⟩ := Option.bind_eq_some_iff.mp hresult
  rcases answer with e | answer
  · exact absurd hok nofun
  · obtain rfl := Option.some.inj hok
    exact ⟨answer, List.mem_of_getElem? hanswer, Prod.mk.inj hpair⟩

/-- A hidden key is in the verification of a step. -/
theorem secret_verified : ¬ ∀ (session : HarnessSession) (ω : Oracle harnessSig)
    (ops : List SessionOp) (result : SessionResult),
    .ok result ∈ (SessionRun.run .reference session ω ops).results →
      ∀ d ∈ result.observations ++ result.handedOn, ∀ key ∈ session.hiddenKeys,
        key ∉ d.map Prod.fst := by
  intro h
  obtain ⟨result, hmem, -, hhanded⟩ := secret_stepped
  refine h _ _ _ result hmem [("secret", .int 7)] ?_ "secret" (by decide) (by decide)
  rw [hhanded]
  exact List.mem_append_right _ List.mem_cons_self

theorem hidden_keys_projected_secret : ∃ result,
    .ok result ∈ (SessionRun.run .reference secretSession secretWorld
      [.reset, .step verifiedAction]).results ∧
      (∀ d ∈ result.observations, secretSession.Redacted d) ∧
        ∀ d ∈ result.handedOn, Answered (SessionRun.run .reference secretSession secretWorld
          [.reset, .step verifiedAction]).log d := by
  obtain ⟨result, hmem, -⟩ := secret_stepped
  exact ⟨result, hmem, hidden_keys_projected .reference secretSession secretWorld _ hmem⟩

end HarnessSession

end GymAct
