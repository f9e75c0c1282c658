import GymAct.Fallible
import GymAct.Harness

/-!
# The rollouts of a rigger

`EnvRigger._rollout` of `envrigger.py` : one episode from its reset to its teardown. The steps
stand in a `try` whose `finally` tears the episode down, and so does a reset that refuses; a reset
that raises once the episode exists leaves it (`rollout_tearsDown_iff`).
-/

namespace GymAct

open Coop Coop.Prog

/-! ## Rollouts -/

structure TrajectoryStep where
  index : ℕ
  observation : Payload
  action : Option HarnessAction
  accepted : Option Bool := none
  standing : Option Standing := none
  reason : Option String := none

/-- The step of an action the session took, or refused. -/
def TrajectoryStep.taken (index : ℕ) (observation : Payload) (result : HarnessStepResult) :
    TrajectoryStep :=
  ⟨index, observation, some result.action, some result.accepted, some result.standing,
    result.reason⟩

structure Rollout where
  steps : List TrajectoryStep
  solved : Bool
  resetStanding : Standing
  verificationId : Option String := none
  episodeId : Option String := none
  teardownStanding : Option Standing := none

/-- The rigger of a task. Its policy may keep a state of its own, so it is told the number of the
step; it answers anything, or raises. -/
structure EnvRigger where
  sessionFactory : TaskSpec → Except Exc HarnessSession
  policy : ℕ → Payload → List Capability → Except Exc (Option HarnessAction)
  maxSteps : ℕ := 32
  /-- `ENVRIGGER_POSITIVE_BOUNDS_REQUIRED`. -/
  maxSteps_pos : 1 ≤ maxSteps

namespace EnvRigger

open HarnessSession

variable (C : Canon) (rigger : EnvRigger) (session : HarnessSession)

/-- What the steps of a rollout gather. -/
structure Trajectory where
  steps : List TrajectoryStep := []
  solved : Bool := false
  verificationId : Option String := none

/-- The loop over the steps, the first of them `index`. -/
def playSteps : (left : ℕ) → (index : ℕ) → Trajectory → HarnessM Trajectory
  | 0, _, t => pure t
  | left + 1, index, t => do
    let verification ← session.verify
    let t := { t with verificationId := some verification.verificationId }
    if verification.passed then pure { t with solved := true }
    else
      let observation ← session.observe
      let episodeId ← episode
      let capabilities ← callNow (.capabilities episodeId)
      let chosen ← Prog.lift (rigger.policy index observation capabilities)
      match chosen with
      | none => pure { t with steps := t.steps ++ [{ index, observation, action := none }] }
      | some action =>
        let result ← session.step C action
        playSteps left (index + 1) { t with steps := t.steps ++ [.taken index observation result] }

/-- The body of the `try`. -/
def play : HarnessM Trajectory := do
  let t ← playSteps C rigger session rigger.maxSteps 0 {}
  if t.solved then pure t
  else
    let verification ← session.verify
    pure { t with
      verificationId := some verification.verificationId, solved := verification.passed }

/-- The `try` and its `finally`. -/
def attend (resetStanding : Standing) (episodeId : String) : HarnessM Rollout := do
  let played ← attempt (play C rigger session)
  let receipt ← session.teardown
  let t ← Prog.lift played
  pure { steps := t.steps, solved := t.solved, resetStanding, verificationId := t.verificationId,
         episodeId := some episodeId, teardownStanding := some receipt.standing }

/-- The reset is refused, and leaves the episode `episodeId`. -/
def dismiss (resetStanding : Standing) (episodeId : String) : HarnessM Rollout := do
  let receipt ← session.teardown
  pure { steps := [], solved := false, resetStanding, episodeId := some episodeId,
         teardownStanding := some receipt.standing }

/-- `_rollout` once the reset is done. -/
def conclude (reset : HarnessResetResult) : HarnessM Rollout := do
  let s ← getState
  match reset.accepted, s.episodeId with
  | true, some episodeId => attend C rigger session reset.standing episodeId
  | false, some episodeId => dismiss session reset.standing episodeId
  | _, none => pure { steps := [], solved := false, resetStanding := reset.standing }

/-- `_rollout`. -/
def rollout (task : TaskSpec) : HarnessM Rollout := do
  let session ← Prog.lift (rigger.sessionFactory task)
  let reset ← session.reset C
  conclude C rigger session reset

/-! ## Episodes and their teardown -/

/-- An episode is materialized, and `tail` is what is called from then on. -/
def Materialized (log : Log harnessSig) (episodeId : String) (tail : Log harnessSig) : Prop :=
  ∃ pre intent materialization episode,
    log = pre ++ ⟨.materialize intent, .ok materialization⟩ :: tail ∧
      materialization.accepted = true ∧ materialization.episode = some episode ∧
      episode.episodeId = episodeId

/-- A teardown of the episode was attempted. -/
def TornDown (episodeId : String) (tail : Log harnessSig) : Prop :=
  ∃ authorityRef r, ⟨.teardown episodeId authorityRef, r⟩ ∈ tail

/-- A teardown was attempted of every episode that was materialized. -/
def TearsDown (log : Log harnessSig) : Prop :=
  ∀ episodeId tail, Materialized log episodeId tail → TornDown episodeId tail

/-- What `reset` asks of the runtime once the episode exists, when all goes well. -/
inductive Demand
  | target (capabilityRef : String) (requiresDo : Bool)
  | baseline
  | action (action : HarnessAction)

/-- The demands of the stage actions on the admission. -/
def stageTargets (actions : List HarnessAction) : List Demand :=
  actions.map fun action => .target action.capability true

/-- The demands of the contract rules on the admission. -/
def rewriteTargets (rules : List ContractRule) : List Demand :=
  (rules.filter fun rule => rule.effect = .rewrite).map fun rule =>
    .target (rule.rewriteCapability.getD "") false

/-- The demands of `reset`, in order. -/
def demands : List Demand :=
  stageTargets session.task.harness.stageActions ++
    (rewriteTargets (session.task.harness.contracts.flatMap Contract.rules) ++
      (.baseline :: session.task.harness.stageActions.map .action))

/-- The intent of a stage action. -/
def stageIntent (episodeId : String) (action : HarnessAction) : ActuationIntent :=
  { episodeId, capability := action.capability, payload := action.payload,
    authorityRef := session.authorityRef, principal := session.principal,
    idempotencyKey := action.idempotencyKey }

/-- RFC 8785 encodes the intent of a stage action. -/
def Encodes (episodeId : String) (action : HarnessAction) : Prop :=
  ∃ bytes, C.canonicalBytes (stageIntent session episodeId action).modelDump = .ok bytes

/-- The answers of the runtime meet a demand. -/
inductive Meets (episodeId : String) : Demand → Log harnessSig → Prop
  | target {capabilityRef : String} {requiresDo : Bool} {capabilities : List Capability}
      {capability : Capability}
      (hfound : (capabilities.find? fun cap => cap.iri = capabilityRef) = some capability)
      (hdo : requiresDo = true → capability.consequence = .do) :
      Meets episodeId (.target capabilityRef requiresDo)
        [⟨.capabilities episodeId, .ok capabilities⟩]
  | baseline (saved : Payload) : Meets episodeId .baseline [⟨.checkpoint episodeId, .ok saved⟩]
  | acted {action : HarnessAction} {result : ActuationResult}
      (hencodes : Encodes C session episodeId action) (haccepted : result.accepted = true)
      (hexpected : action.expectedAfter = none) :
      Meets episodeId (.action action) [⟨.act (stageIntent session episodeId action), .ok result⟩]
  | verified {action : HarnessAction} {result : ActuationResult} {expected : Payload}
      {verification : VerificationResult} (hencodes : Encodes C session episodeId action)
      (haccepted : result.accepted = true) (hexpected : action.expectedAfter = some expected)
      (hpassed : verification.passed = true) :
      Meets episodeId (.action action) [⟨.act (stageIntent session episodeId action), .ok result⟩,
        ⟨.verify episodeId expected, .ok verification⟩]

/-- Where a demand is made, the runtime raises, or the action has no intent. -/
inductive Breaks (episodeId : String) : Demand → Log harnessSig → Prop
  | target {capabilityRef : String} {requiresDo : Bool} (e : Exc) :
      Breaks episodeId (.target capabilityRef requiresDo) [⟨.capabilities episodeId, .error e⟩]
  | baseline (e : Exc) : Breaks episodeId .baseline [⟨.checkpoint episodeId, .error e⟩]
  | unencoded {action : HarnessAction} (hencodes : ¬ Encodes C session episodeId action) :
      Breaks episodeId (.action action) []
  | act {action : HarnessAction} (e : Exc) (hencodes : Encodes C session episodeId action) :
      Breaks episodeId (.action action) [⟨.act (stageIntent session episodeId action), .error e⟩]
  | rollback {action : HarnessAction} {result : ActuationResult} {saved : Payload} (e : Exc)
      (hencodes : Encodes C session episodeId action) (hrefused : result.accepted = false) :
      Breaks episodeId (.action action) [⟨.act (stageIntent session episodeId action), .ok result⟩,
        ⟨.restore episodeId saved session.authorityRef, .error e⟩]
  | verify {action : HarnessAction} {result : ActuationResult} {expected : Payload} (e : Exc)
      (hencodes : Encodes C session episodeId action) (haccepted : result.accepted = true)
      (hexpected : action.expectedAfter = some expected) :
      Breaks episodeId (.action action) [⟨.act (stageIntent session episodeId action), .ok result⟩,
        ⟨.verify episodeId expected, .error e⟩]
  | rollbackVerified {action : HarnessAction} {result : ActuationResult} {expected saved : Payload}
      {verification : VerificationResult} (e : Exc) (hencodes : Encodes C session episodeId action)
      (haccepted : result.accepted = true) (hexpected : action.expectedAfter = some expected)
      (hfailed : verification.passed = false) :
      Breaks episodeId (.action action) [⟨.act (stageIntent session episodeId action), .ok result⟩,
        ⟨.verify episodeId expected, .ok verification⟩,
        ⟨.restore episodeId saved session.authorityRef, .error e⟩]

/-- All demands are met, one after the other. -/
inductive AllMet (episodeId : String) : List Demand → Log harnessSig → Prop
  | nil : AllMet episodeId [] []
  | cons {d : Demand} {ds : List Demand} {log tail : Log harnessSig}
      (h : Meets C session episodeId d log) (hrest : AllMet episodeId ds tail) :
      AllMet episodeId (d :: ds) (log ++ tail)

/-- The demands are met up to one that breaks. -/
inductive Broken (episodeId : String) : List Demand → Log harnessSig → Prop
  | here {d : Demand} {ds : List Demand} {log : Log harnessSig}
      (h : Breaks C session episodeId d log) : Broken episodeId (d :: ds) log
  | later {d : Demand} {ds : List Demand} {log tail : Log harnessSig}
      (h : Meets C session episodeId d log) (hrest : Broken episodeId ds tail) :
      Broken episodeId (d :: ds) (log ++ tail)

/-- The episode exists, and a call `reset` makes before it cleans up by itself raises, or a stage
action has no intent. -/
def Abandons (task : TaskSpec) (log : Log harnessSig) : Prop :=
  ∃ session episodeId tail, rigger.sessionFactory task = .ok session ∧
    Materialized log episodeId tail ∧ Broken C session episodeId (demands session) tail

/-! ## The demands of a reset -/

/-- An episode is materialized. -/
def materializes : (Σ c : RuntimeCall, Except Exc c.Value) → Bool
  | ⟨.materialize _, .ok materialization⟩ =>
    materialization.accepted && materialization.episode.isSome
  | _ => false

/-- No episode is materialized. -/
def Unmaterialized (log : Log harnessSig) : Prop := ∀ e ∈ log, materializes e = false

theorem Unmaterialized.append {log tail : Log harnessSig} (h : Unmaterialized log)
    (htail : Unmaterialized tail) : Unmaterialized (log ++ tail) := fun e he =>
  (List.mem_append.mp he).elim (h e) (htail e)

theorem unmaterialized_nil : Unmaterialized [] := fun _ he => absurd he List.not_mem_nil

theorem unmaterialized_singleton {e : Σ c : RuntimeCall, Except Exc c.Value}
    (h : materializes e = false) : Unmaterialized [e] := fun e' he => by
  rw [List.mem_singleton.mp he]
  exact h

section Demands

variable {C : Canon} {session : HarnessSession} {id : String} {d : Demand} {ds ds' : List Demand}
  {log tail tail' : Log harnessSig}

theorem Meets.unmaterialized (h : Meets C session id d log) : Unmaterialized log := by
  cases h <;> simp [Unmaterialized, materializes]

theorem Breaks.unmaterialized (h : Breaks C session id d log) : Unmaterialized log := by
  cases h <;> simp [Unmaterialized, materializes]

theorem Meets.not_tornDown (h : Meets C session id d log) : ¬ TornDown id log := by
  rintro ⟨authorityRef, r, hmem⟩
  cases h <;> simp at hmem

theorem Breaks.not_tornDown (h : Breaks C session id d log) : ¬ TornDown id log := by
  rintro ⟨authorityRef, r, hmem⟩
  cases h <;> simp at hmem

theorem tornDown_append : TornDown id (log ++ tail) ↔ TornDown id log ∨ TornDown id tail := by
  simp only [TornDown, List.mem_append, exists_or]

/-- What breaks is not torn down. -/
theorem Broken.not_tornDown (h : Broken C session id ds log) : ¬ TornDown id log := by
  induction h with
  | here h => exact h.not_tornDown
  | later h _ ih => exact fun htorn => (tornDown_append.mp htorn).elim h.not_tornDown ih

theorem Broken.append (h : Broken C session id ds log) : Broken C session id (ds ++ ds') log := by
  induction h with
  | here h => exact .here h
  | later h _ ih => exact .later h ih

theorem AllMet.broken (h : AllMet C session id ds log) (htail : Broken C session id ds' tail) :
    Broken C session id (ds ++ ds') (log ++ tail) := by
  induction h with
  | nil => exact htail
  | cons h _ ih => exact List.append_assoc _ _ _ ▸ .later h ih

theorem AllMet.append (h : AllMet C session id ds log) (htail : AllMet C session id ds' tail) :
    AllMet C session id (ds ++ ds') (log ++ tail) := by
  induction h with
  | nil => exact htail
  | cons h _ ih => exact List.append_assoc _ _ _ ▸ .cons h ih

end Demands

/-- How a part of the staging that makes the demands `ds` ends : it raises where they break, has met
them if it goes on, and else returns a value of `refusal`. -/
structure Staged (C : Canon) (session : HarnessSession) (id : String) (s : SessionState)
    (log : Log harnessSig) (ds : List Demand) {α : Type} (goesOn refusal : α → Prop)
    (r : Except Exc α) (s' : SessionState) (log' : Log harnessSig) : Prop where
  state : s' = s
  calls : ∃ tail, log' = log ++ tail ∧ Unmaterialized tail ∧
    match r with
    | .error _ => Broken C session id ds tail
    | .ok a => goesOn a ∧ AllMet C session id ds tail ∨ refusal a

section Staging

variable {C : Canon} {session : HarnessSession} {id : String} {d : Demand} {ds ds' : List Demand}
  {s s' : SessionState} {log log' tail : Log harnessSig} {α β : Type} {goesOn refusal : α → Prop}
  {r : Except Exc α}

theorem Staged.done {a : α} (h : goesOn a) :
    Staged C session id s log [] goesOn refusal (.ok a) s log :=
  ⟨rfl, [], (List.append_nil _).symm, unmaterialized_nil, Or.inl ⟨h, .nil⟩⟩

theorem Staged.broke (h : Breaks C session id d tail) (e : Exc) :
    Staged C session id s log (d :: ds) goesOn refusal (.error e) s (log ++ tail) :=
  ⟨rfl, tail, rfl, h.unmaterialized, .here h⟩

theorem Staged.refused (h : Unmaterialized tail) {a : α} (ha : refusal a) :
    Staged C session id s log ds goesOn refusal (.ok a) s (log ++ tail) :=
  ⟨rfl, tail, rfl, h, Or.inr ha⟩

theorem Staged.next (h : Meets C session id d tail)
    (hrest : Staged C session id s (log ++ tail) ds goesOn refusal r s' log') :
    Staged C session id s log (d :: ds) goesOn refusal r s' log' := by
  obtain ⟨hs, more, rfl, hmore, hr⟩ := hrest
  refine ⟨hs, tail ++ more, List.append_assoc _ _ _, h.unmaterialized.append hmore, ?_⟩
  match r with
  | .error e => exact .later h hr
  | .ok a => exact hr.imp_left fun hgoes => ⟨hgoes.1, .cons h hgoes.2⟩

/-- A part of the staging, once another has met its demands. -/
theorem Staged.after (h : AllMet C session id ds tail) (htail : Unmaterialized tail)
    (hrest : Staged C session id s (log ++ tail) ds' goesOn refusal r s' log') :
    Staged C session id s log (ds ++ ds') goesOn refusal r s' log' := by
  obtain ⟨hs, more, rfl, hmore, hr⟩ := hrest
  refine ⟨hs, tail ++ more, List.append_assoc _ _ _, htail.append hmore, ?_⟩
  match r with
  | .error e => exact h.broken hr
  | .ok a => exact hr.imp_left fun hgoes => ⟨hgoes.1, h.append hgoes.2⟩

/-- The runs of `p` are parts of the staging that make the demands `ds`. -/
abbrev Stages (C : Canon) (session : HarnessSession) (id : String) (s : SessionState)
    (log : Log harnessSig) (ds : List Demand) (goesOn refusal : α → Prop) (p : HarnessM α) : Prop :=
  post (S := harnessSig) (fun _ _ => True) (Staged C session id s log ds goesOn refusal) p s log

/-- Two parts of the staging, one after the other. -/
theorem Stages.bind {goesOn' refusal' : β → Prop} {p : HarnessM α} {f : α → HarnessM β}
    (hp : Stages C session id s log ds goesOn refusal p)
    (hgoes : ∀ a, goesOn a → ∀ {log}, Stages C session id s log ds' goesOn' refusal' (f a))
    (hrefused : ∀ a, refusal a → ∃ b, f a = pure b ∧ refusal' b) :
    Stages C session id s log (ds ++ ds') goesOn' refusal' (p >>= f) := by
  rw [Stages, post_bind]
  refine post_mono (fun r s' log' hr => ?_) _ hp
  obtain ⟨rfl, tail, rfl, htail, hr⟩ := hr
  match r with
  | .error e => exact ⟨rfl, tail, rfl, htail, hr.append⟩
  | .ok a =>
    rw [post_onOk]
    rcases hr with ⟨ha, hmet⟩ | ha
    · exact post_mono (fun _ _ _ hrest => hrest.after hmet htail) _ (hgoes a ha)
    · obtain ⟨b, hb, hb'⟩ := hrefused a ha
      rw [hb, post_pure]
      exact .refused htail hb'

theorem currentEpisode_eq (hs : s.episodeId = some id) : currentEpisode s = .ok id := by
  rw [currentEpisode, hs]

theorem stages_admitStageActions (hs : s.episodeId = some id) :
    ∀ (actions : List HarnessAction) (stageCount : ℕ) {log : Log harnessSig},
      Stages C session id s log (stageTargets actions) (· = none)
        (fun r => ∃ refusal, r = some refusal ∧ refusal.accepted = false)
        (admitStageActions actions stageCount)
  | [], _, _ => .done rfl
  | action :: actions, stageCount, log => by
    rw [Stages, admitStageActions, post_bind, capability, post_bind, post_episode,
      currentEpisode_eq hs, post_onOk, post_bind, post_callNow]
    rintro (e | capabilities) -
    · exact .broke (.target e) e
    · rw [post_onOk, post_pure, post_onOk]
      cases hfound : capabilities.find? fun cap => cap.iri = action.capability with
      | none => exact .refused (unmaterialized_singleton rfl) ⟨_, rfl, rfl⟩
      | some capability =>
        dsimp only
        split
        · exact .refused (unmaterialized_singleton rfl) ⟨_, rfl, rfl⟩
        · next hdo =>
          refine post_mono (fun _ _ _ hrest => ?_) _ (stages_admitStageActions hs actions _)
          exact hrest.next (.target hfound fun _ => not_not.mp hdo)

theorem stages_admitRewrites (hs : s.episodeId = some id) (stageCount : ℕ) :
    ∀ (rules : List ContractRule) (rewriteCount : ℕ) {log : Log harnessSig},
      Stages C session id s log (rewriteTargets rules) (·.accepted = true) (·.accepted = false)
        (admitRewrites stageCount rules rewriteCount)
  | [], _, _ => .done rfl
  | rule :: rules, rewriteCount, log => by
    rw [Stages, admitRewrites]
    split
    · next heffect =>
      rw [rewriteTargets, List.filter_cons_of_neg (by simpa using heffect)]
      exact stages_admitRewrites hs stageCount rules _
    · next heffect =>
      rw [rewriteTargets, List.filter_cons_of_pos (by simpa using heffect), post_bind, capability,
        post_bind, post_episode, currentEpisode_eq hs, post_onOk, post_bind, post_callNow]
      rintro (e | capabilities) -
      · exact .broke (.target e) e
      · rw [post_onOk, post_pure, post_onOk]
        cases hfound : capabilities.find? fun cap => cap.iri = rule.rewriteCapability.getD "" with
        | none => exact .refused (unmaterialized_singleton rfl) rfl
        | some capability =>
          refine post_mono (fun _ _ _ hrest => ?_) _ (stages_admitRewrites hs stageCount rules _)
          exact hrest.next (.target hfound nofun)

theorem stages_admitHarness (hs : s.episodeId = some id) : Stages C session id s log
    (stageTargets session.task.harness.stageActions ++
      rewriteTargets (session.task.harness.contracts.flatMap Contract.rules))
    (·.accepted = true) (·.accepted = false) (admitHarness session) := by
  refine (stages_admitStageActions hs _ 0).bind (fun refusal hnone => ?_) fun _ hrefused => ?_
  · subst hnone
    exact stages_admitRewrites hs _ _ 0
  · obtain ⟨refusal, rfl, hrefusal⟩ := hrefused
    exact ⟨refusal, rfl, hrefusal⟩

theorem stages_failedStageResult (hs : s.episodeId = some id) (htail : Unmaterialized tail)
    (hbreaks : ∀ saved e, Breaks C session id d
      (tail ++ [⟨.restore id saved session.authorityRef, .error e⟩]))
    (staging : Staging) (results : List ActuationResult) (verifications : List VerificationResult)
    (standing : Standing) (reason : String) :
    post (S := harnessSig) (fun _ _ => True)
      (Staged C session id s log (d :: ds) (·.accepted = true) (·.accepted = false))
      (failedStageResult session staging results verifications standing reason) s (log ++ tail) := by
  rw [failedStageResult, post_bind, rollback, post_bind, post_episode, currentEpisode_eq hs,
    post_onOk]
  refine post_call_cases (fun e => ?_) fun receipt => ?_
  · rw [List.append_assoc]
    exact .broke (hbreaks _ e) e
  · rw [post_onOk, post_pure, List.append_assoc]
    exact .refused (htail.append (unmaterialized_singleton rfl)) rfl

/-- A stage action is not encoded, or the runtime answers it. -/
theorem post_actuate_cases (hs : s.episodeId = some id) {action : HarnessAction}
    {Q : Except Exc ActuationResult → SessionState → Log harnessSig → Prop}
    (hunencoded : ¬ Encodes C session id action → ∀ e, Q (.error e) s log)
    (herr : Encodes C session id action →
      ∀ e, Q (.error e) s (log ++ [⟨.act (stageIntent session id action), .error e⟩]))
    (hok : Encodes C session id action →
      ∀ result, Q (.ok result) s (log ++ [⟨.act (stageIntent session id action), .ok result⟩])) :
    post (S := harnessSig) (fun _ _ => True) Q (actuate C session action) s log := by
  rw [actuate, post_bind, post_episode, currentEpisode_eq hs, post_onOk, post_bind, validated]
  split
  · next e hbytes => exact hunencoded (fun ⟨bytes, h⟩ => nomatch hbytes.symm.trans h) _
  · next bytes hbytes => exact post_call_cases (herr ⟨bytes, hbytes⟩) (hok ⟨bytes, hbytes⟩)

theorem stages_applyStages (hs : s.episodeId = some id) (staging : Staging) :
    ∀ (actions : List HarnessAction) (results : List ActuationResult)
      (verifications : List VerificationResult) {log : Log harnessSig},
      Stages C session id s log (actions.map .action) (·.accepted = true) (·.accepted = false)
        (applyStages C session staging actions results verifications)
  | [], _, _, _ => .done rfl
  | action :: actions, results, verifications, log => by
    rw [Stages, applyStages, post_bind]
    refine post_actuate_cases hs (fun hencodes e => ?_) (fun hencodes e => .broke (.act e hencodes) e)
      fun hencodes result => ?_
    · exact ⟨rfl, [], (List.append_nil _).symm, unmaterialized_nil, .here (.unencoded hencodes)⟩
    rw [post_onOk]
    dsimp only
    split
    · next hrefused =>
      exact stages_failedStageResult hs (unmaterialized_singleton rfl)
        (fun saved e => .rollback e hencodes hrefused) _ _ _ _ _
    · next haccepted =>
      rw [Bool.not_eq_false] at haccepted
      split
      · next hexpected =>
        refine post_mono (fun _ _ _ hrest => ?_) _ (stages_applyStages hs staging actions _ _)
        exact hrest.next (.acted hencodes haccepted hexpected)
      · next expected hexpected =>
        rw [post_bind, HarnessSession.verify, post_bind, post_episode, currentEpisode_eq hs,
          post_onOk]
        refine post_call_cases (fun e => ?_) fun verification => ?_
        · rw [List.append_assoc]
          exact .broke (.verify e hencodes haccepted hexpected) e
        · rw [post_onOk, List.append_assoc]
          dsimp only
          split
          · next hfailed =>
            exact stages_failedStageResult hs
              ((unmaterialized_singleton rfl).append (unmaterialized_singleton rfl))
              (fun saved e => .rollbackVerified e hencodes haccepted hexpected hfailed) _ _ _ _ _
          · next hpassed =>
            rw [Bool.not_eq_false] at hpassed
            refine post_mono (fun _ _ _ hrest => ?_) _ (stages_applyStages hs staging actions _ _)
            exact hrest.next (.verified hencodes haccepted hexpected hpassed)

/-- A teardown is attempted, and nothing else. -/
theorem post_teardown (hs : s.episodeId = some id)
    {Q : Except Exc Receipt → SessionState → Log harnessSig → Prop}
    (h : ∀ r s' answer, Q r s' (log ++ [⟨.teardown id session.authorityRef, answer⟩])) :
    post (S := harnessSig) (fun _ _ => True) Q session.teardown s log := by
  rw [HarnessSession.teardown, post_bind, post_episode, currentEpisode_eq hs, post_onOk, post_bind]
  refine post_call_cases (fun e => h _ _ _) fun receipt => ?_
  rw [post_onOk]
  split
  · exact h _ _ _
  · exact h _ _ _

theorem tornDown_singleton {answer : Except Exc Receipt} :
    TornDown id [⟨.teardown id session.authorityRef, answer⟩] := ⟨_, _, List.mem_cons_self⟩

/-- The end of a reset whose episode is `id` : a teardown was attempted, or the episode is still the
session's, and the demands broke if it raises. -/
def Prepared (C : Canon) (session : HarnessSession) (id : String) (log : Log harnessSig)
    (r : Except Exc α) (s' : SessionState) (log' : Log harnessSig) : Prop :=
  ∃ tail, log' = log ++ tail ∧ Unmaterialized tail ∧
    (TornDown id tail ∨ s'.episodeId = some id ∧
      ∀ e, r = .error e → Broken C session id (demands session) tail)

theorem post_prepare (hs : s.episodeId = some id) (materialization : MaterializationResult) :
    post (S := harnessSig) (fun _ _ => True) (Prepared C session id log)
      (prepare C session materialization) s log := by
  have hdemands : demands session = (stageTargets session.task.harness.stageActions ++
      rewriteTargets (session.task.harness.contracts.flatMap Contract.rules)) ++
        .baseline :: session.task.harness.stageActions.map .action :=
    (List.append_assoc _ _ _).symm
  rw [prepare, post_bind]
  refine post_mono (fun r s' log' hr => ?_) _ (stages_admitHarness (C := C) hs)
  obtain ⟨rfl, tail, rfl, htail, hr⟩ := hr
  match r with
  | .error e => exact ⟨tail, rfl, htail, Or.inr ⟨hs, fun _ _ => hdemands ▸ hr.append⟩⟩
  | .ok admission =>
    rw [post_onOk]
    rcases hr with ⟨haccepted, hmet⟩ | hrefused
    · rw [if_neg (by simp [haccepted]), post_bind, post_episode, currentEpisode_eq hs, post_onOk,
        post_bind]
      refine post_call_cases (fun e => ?_) fun baseline => ?_
      · refine ⟨tail ++ [_], List.append_assoc _ _ _,
          htail.append (unmaterialized_singleton rfl), Or.inr ⟨hs, fun _ _ => ?_⟩⟩
        exact hdemands ▸ hmet.broken (.here (.baseline e))
      · rw [post_onOk]
        refine post_mono (fun r s' log' hstages => ?_) _ (stages_applyStages hs _ _ [] [])
        have hstages := (hstages.next (.baseline baseline)).after hmet htail
        obtain ⟨rfl, more, rfl, hmore, hr⟩ := hstages
        refine ⟨more, rfl, hmore, Or.inr ⟨hs, fun e he => ?_⟩⟩
        subst he
        exact hdemands ▸ hr
    · rw [if_pos hrefused, refuseHarness, post_bind]
      refine post_teardown hs fun r s' answer => ?_
      have hprepared : ∀ r' : Except Exc HarnessResetResult, Prepared C session id log r' s'
          (log ++ tail ++ [⟨.teardown id session.authorityRef, answer⟩]) := fun _ =>
        ⟨tail ++ [_], List.append_assoc _ _ _, htail.append (unmaterialized_singleton rfl),
          Or.inl (tornDown_append.mpr (Or.inr tornDown_singleton))⟩
      cases r with
      | error e => exact hprepared _
      | ok receipt => exact hprepared _

end Staging

/-! ## The steps of a rollout -/

/-- The episode of the session satisfies `P`, and none was materialized since `base`. -/
def Since (P : Option String → Prop) (base : Log harnessSig) (s : SessionState)
    (log : Log harnessSig) : Prop :=
  P s.episodeId ∧ ∃ tail, log = base ++ tail ∧ Unmaterialized tail

/-- The program leaves the episode of the session, and materializes none. -/
abbrev Stays (P : Option String → Prop) (base : Log harnessSig) {α : Type} (p : HarnessM α) : Prop :=
  Keeps (S := harnessSig) (fun _ _ => True) (Since P base) p

section Stays

variable {C : Canon} {session : HarnessSession} {P : Option String → Prop} {base : Log harnessSig}
  {α : Type}

theorem Since.snoc {s : SessionState} {log : Log harnessSig} {c : RuntimeCall}
    {r : Except Exc c.Value} (h : Since P base s log) (hc : materializes ⟨c, r⟩ = false) :
    Since P base s (log ++ [⟨c, r⟩]) := by
  obtain ⟨hs, tail, rfl, htail⟩ := h
  exact ⟨hs, tail ++ [⟨c, r⟩], List.append_assoc _ _ _,
    htail.append (unmaterialized_singleton hc)⟩

theorem stays_call {c : RuntimeCall} (hc : ∀ r, materializes ⟨c, r⟩ = false) :
    Stays P base (call c) :=
  Keeps.bind (.awaitCall fun _ _ r _ h => h.snoc (hc r)) fun _ => .lift _

theorem stays_callNow {c : RuntimeCall} (hc : ∀ r, materializes ⟨c, r⟩ = false) :
    Stays P base (callNow c) :=
  Keeps.bind (.askCall fun _ _ r _ h => h.snoc (hc r)) fun _ => .lift _

theorem stays_episode : Stays P base episode :=
  Keeps.bind .getState fun s => by
    split
    · exact .raise _
    · exact .pure _

theorem stays_capability (capabilityRef : String) : Stays P base (capability capabilityRef) :=
  stays_episode.bind fun _ => (stays_callNow fun _ => rfl).bind fun _ => .pure _

theorem stays_verify (expected : Option Payload) : Stays P base (session.verify expected) :=
  stays_episode.bind fun _ => stays_call fun _ => rfl

theorem stays_rawObserve : Stays P base rawObserve :=
  stays_episode.bind fun _ => stays_call fun _ => rfl

theorem stays_observe : Stays P base session.observe :=
  stays_rawObserve.bind fun _ => Keeps.bind .getState fun _ => by
    split
    · exact .pure _
    · exact .pure _

theorem stays_rollback (checkpoint : Payload) : Stays P base (rollback session checkpoint) :=
  stays_episode.bind fun _ => stays_call fun _ => rfl

theorem stays_decisionDigest (action : HarnessAction) (raw : Observation) (admitted : Bool)
    (reason : String) (feedback : List String) :
    Stays P base (decisionDigest C session action raw admitted reason feedback) :=
  Keeps.bind .getState fun _ => (Keeps.lift _).bind fun _ => .lift _

theorem stays_admitRules (raw : Observation) (rules : List ContractRule) :
    ∀ (current : HarnessAction) (reason : String) (feedback : List String),
      Stays P base (admitRules C session raw rules current reason feedback) := by
  induction rules with
  | nil => exact fun _ _ _ => (stays_decisionDigest _ _ _ _ _).bind fun _ => .pure _
  | cons rule rules ih =>
    refine fun current reason feedback => Keeps.bind .getState fun s => ?_
    split
    · dsimp only
      split
      · exact (stays_decisionDigest _ _ _ _ _).bind fun _ => .pure _
      · exact ih _ _ _
    · exact ih _ _ _

theorem stays_admitAction (action : HarnessAction) : Stays P base (admitAction C session action) :=
  stays_rawObserve.bind fun _ => stays_admitRules _ _ _ _ _

theorem stays_actuate (action : HarnessAction) : Stays P base (actuate C session action) :=
  stays_episode.bind fun _ => Keeps.bind (by
    unfold validated
    split
    · exact .raise _
    · exact .pure _) fun _ => stays_call fun _ => rfl

theorem stays_verifyStepPostcondition (action : HarnessAction) :
    Stays P base (verifyStepPostcondition session action) := by
  unfold verifyStepPostcondition
  split
  · exact .pure _
  · exact (stays_verify _).map _

theorem stays_remember (action : HarnessAction) : Stays P base (remember action) :=
  .modify fun _ _ h => h

/-- An observation ends each step. -/
theorem stays_observed {f : Payload → α} :
    Stays P base (session.observe >>= fun observation => pure (f observation)) :=
  stays_observe.bind fun _ => .pure _

theorem stays_stepRead (decision : ContractDecision) :
    Stays P base (stepRead session decision) :=
  stays_episode.bind fun _ => (stays_call fun _ => rfl).bind fun _ =>
    (stays_verifyStepPostcondition _).bind fun _ => by
      split
      · exact stays_observed
      · exact (stays_remember _).bind fun _ => stays_observed

theorem stays_stepRollback (decision : ContractDecision) (actuation : ActuationResult)
    (verification : Option VerificationResult) (checkpoint : Option Payload) :
    Stays P base (stepRollback session decision actuation verification checkpoint) := by
  unfold stepRollback
  split
  · exact .raise _
  · exact (stays_rollback _).bind fun _ => stays_observed

theorem stays_stepCheckpoint (action : HarnessAction) : Stays P base (stepCheckpoint action) := by
  unfold stepCheckpoint
  split
  · exact stays_episode.bind fun _ => (stays_call fun _ => rfl).map _
  · exact .pure _

theorem stays_stepDo (decision : ContractDecision) : Stays P base (stepDo C session decision) :=
  (stays_stepCheckpoint _).bind fun _ => (stays_actuate _).bind fun _ => by
    split
    · exact stays_observed
    · refine (stays_verifyStepPostcondition _).bind fun _ => ?_
      split
      · exact stays_stepRollback _ _ _ _
      · exact (stays_remember _).bind fun _ => stays_observed

theorem stays_step (action : HarnessAction) : Stays P base (session.step C action) := by
  refine (stays_admitAction _).bind fun decision => Keeps.bind (.modify fun _ _ h => h) fun _ => ?_
  split
  · exact stays_observed
  · refine (stays_capability _).bind fun found => ?_
    split
    · exact stays_observed
    · split
      · exact stays_stepRead _
      · exact stays_stepDo _

theorem stays_playSteps (rigger : EnvRigger) (left : ℕ) :
    ∀ (index : ℕ) (t : Trajectory), Stays P base (playSteps C rigger session left index t) := by
  induction left with
  | zero => exact fun _ _ => .pure _
  | succ left ih =>
    refine fun index t => (stays_verify _).bind fun verification => ?_
    dsimp only
    split
    · exact .pure _
    · refine stays_observe.bind fun _ => stays_episode.bind fun _ =>
        (stays_callNow fun _ => rfl).bind fun _ => (Keeps.lift _).bind fun chosen => ?_
      split
      · exact .pure _
      · exact (stays_step _).bind fun _ => ih _ _

theorem stays_play (rigger : EnvRigger) : Stays P base (play C rigger session) := by
  refine (stays_playSteps rigger _ _ _).bind fun t => ?_
  split
  · exact .pure _
  · exact (stays_verify _).bind fun _ => .pure _

/-- A teardown may leave the session without an episode. -/
theorem stays_teardown : Stays (fun _ => True) base session.teardown :=
  stays_episode.bind fun _ => (stays_call fun _ => rfl).bind fun _ => by
    split
    · exact Keeps.bind (.modify fun _ _ h => h) fun _ => .pure _
    · exact .pure _

theorem stays_conclude (rigger : EnvRigger) (reset : HarnessResetResult) :
    Stays (fun _ => True) base (conclude C rigger session reset) := by
  refine Keeps.bind .getState fun s => ?_
  split
  · exact (stays_play rigger).attempt.bind fun _ => stays_teardown.bind fun _ =>
      (Keeps.lift _).bind fun _ => .pure _
  · exact stays_teardown.bind fun _ => .pure _
  · exact .pure _

theorem stays_priorTeardown : Stays (fun _ => True) base (priorTeardown session) := by
  refine Keeps.bind .getState fun s => ?_
  split
  · refine stays_teardown.bind fun receipt => ?_
    split
    · exact .raise _
    · exact .pure _
  · exact .pure _

end Stays

/-! ## The runs of a rollout -/

/-- Of each episode a run materializes, a teardown is attempted exactly when the demands of its
reset do not break. -/
def Settles (C : Canon) (session : HarnessSession) (log : Log harnessSig) : Prop :=
  ∀ id tail, Materialized log id tail →
    (TornDown id tail ↔ ¬ Broken C session id (demands session) tail)

section Runs

variable {C : Canon} {session : HarnessSession} {id : String} {s : SessionState}
  {log base tail : Log harnessSig}

theorem Unmaterialized.not_materialized (h : Unmaterialized log) : ¬ Materialized log id tail := by
  rintro ⟨pre, intent, m, episode, rfl, haccepted, hepisode, -⟩
  have hm := h ⟨.materialize intent, .ok m⟩ (by simp)
  rw [materializes, haccepted, hepisode] at hm
  cases hm

theorem settles_of_unmaterialized (h : Unmaterialized log) : Settles C session log :=
  fun _ _ hm => absurd hm h.not_materialized

/-- The only materialization of a log. -/
theorem eq_of_materialized {intent : MaterializationIntent} {m : MaterializationResult}
    {episode : Episode} (hbase : Unmaterialized base) (htail : Unmaterialized tail)
    (hepisode : m.episode = some episode) {tail' : Log harnessSig}
    (h : Materialized (base ++ ⟨.materialize intent, .ok m⟩ :: tail) id tail') :
    id = episode.episodeId ∧ tail' = tail := by
  obtain ⟨pre, intent', m', episode', hlog, haccepted', hepisode', rfl⟩ := h
  have hm' : materializes ⟨.materialize intent', .ok m'⟩ = true := by
    rw [materializes, haccepted', hepisode']
    rfl
  rcases List.append_eq_append_iff.mp hlog with ⟨more, rfl, hmore⟩ | ⟨more, rfl, hmore⟩
  · cases more with
    | nil =>
      obtain ⟨hcall, rfl⟩ := List.cons.inj hmore
      cases hcall
      exact ⟨congrArg Episode.episodeId (Option.some_inj.mp (hepisode'.symm.trans hepisode)), rfl⟩
    | cons e more =>
      obtain ⟨-, rfl⟩ := List.cons.inj hmore
      cases (htail _ (by simp)).symm.trans hm'
  · cases more with
    | nil =>
      obtain ⟨hcall, rfl⟩ := List.cons.inj hmore
      cases hcall
      exact ⟨congrArg Episode.episodeId (Option.some_inj.mp (hepisode'.symm.trans hepisode)), rfl⟩
    | cons e more =>
      obtain ⟨rfl, -⟩ := List.cons.inj hmore
      cases (hbase _ (by simp)).symm.trans hm'

/-- A run that materializes one episode. -/
theorem settles {intent : MaterializationIntent} {m : MaterializationResult} {episode : Episode}
    (hbase : Unmaterialized base) (htail : Unmaterialized tail)
    (hepisode : m.episode = some episode)
    (h : TornDown episode.episodeId tail ∨
      Broken C session episode.episodeId (demands session) tail) :
    Settles C session (base ++ ⟨.materialize intent, .ok m⟩ :: tail) := by
  intro id tail' hm
  obtain ⟨rfl, rfl⟩ := eq_of_materialized hbase htail hepisode hm
  exact ⟨fun htorn hbroken => hbroken.not_tornDown htorn, h.resolve_right⟩

/-- A log that goes on from `log` with a teardown of the episode. -/
def TearsOff (id : String) (log log' : Log harnessSig) : Prop :=
  ∃ tail, log' = log ++ tail ∧ Unmaterialized tail ∧ TornDown id tail

/-- A teardown that ends a program. -/
theorem post_lastTeardown (hs : s.episodeId = some id) (htail : Unmaterialized tail)
    {log₁ : Log harnessSig} (heq : log₁ = log ++ tail) {α : Type} {f : Receipt → HarnessM α}
    (hf : ∀ receipt, ∃ r, f receipt = ret r) :
    post (S := harnessSig) (fun _ _ => True) (fun _ _ log' => TearsOff id log log')
      (session.teardown >>= f) s log₁ := by
  subst heq
  have hlog : ∀ answer, TearsOff id log
      (log ++ tail ++ [⟨.teardown id session.authorityRef, answer⟩]) := fun _ =>
    ⟨tail ++ [_], List.append_assoc _ _ _, htail.append (unmaterialized_singleton rfl),
      tornDown_append.mpr (Or.inr tornDown_singleton)⟩
  rw [post_bind]
  refine post_teardown hs fun r s' answer => ?_
  match r with
  | .error e => exact hlog answer
  | .ok receipt =>
    obtain ⟨r', hr'⟩ := hf receipt
    rw [post_onOk, hr', post_ret]
    exact hlog answer

/-- The rollout tears down the episode that a reset returns with. -/
theorem post_conclude (hs : s.episodeId = some id) (rigger : EnvRigger)
    (reset : HarnessResetResult) :
    post (S := harnessSig) (fun _ _ => True) (fun _ _ log' => TearsOff id log log')
      (conclude C rigger session reset) s log := by
  rw [conclude, post_bind, post_getState, post_onOk, hs]
  cases reset.accepted with
  | true =>
    dsimp only
    rw [attend, post_bind, post_attempt]
    have hsince : Since (· = some id) log s log :=
      ⟨hs, [], (List.append_nil _).symm, unmaterialized_nil⟩
    refine post_mono (fun played s' log' hplayed => ?_) _ (stays_play rigger s log hsince)
    obtain ⟨hs', tail, rfl, htail⟩ := hplayed
    rw [post_onOk]
    refine post_lastTeardown hs' htail rfl fun receipt => ?_
    cases played <;> exact ⟨_, rfl⟩
  | false =>
    dsimp only
    exact post_lastTeardown hs unmaterialized_nil (List.append_nil log).symm
      fun receipt => ⟨_, rfl⟩

theorem unmaterialized_of_since {P : Option String → Prop} (h : Since P [] s log) :
    Unmaterialized log := by
  obtain ⟨-, tail, rfl, htail⟩ := h
  exact htail

/-- The materialization of a reset, after calls that materialize nothing. -/
theorem post_materialize {Q : Except Exc MaterializationResult → SessionState → Log harnessSig → Prop}
    (hlog : Unmaterialized log) (herr : ∀ e log', Unmaterialized log' → Q (.error e) s log')
    (hok : ∀ base intent m, Unmaterialized base →
      Q (.ok m) s (base ++ [⟨.materialize intent, .ok m⟩])) :
    post (S := harnessSig) (fun _ _ => True) Q (session.materialize C) s log := by
  rw [HarnessSession.materialize, post_bind, post_callNow]
  rintro (e | key) -
  · exact herr e _ (hlog.append (unmaterialized_singleton rfl))
  have hbase := hlog.append (unmaterialized_singleton (e := ⟨.uuid4, .ok key⟩) rfl)
  rw [post_onOk]
  dsimp only
  rw [post_bind, validated]
  split
  · exact herr _ _ hbase
  · refine post_call_cases (fun e => ?_) fun m => ?_
    · exact herr e _ (hbase.append (unmaterialized_singleton rfl))
    · exact hok _ _ m hbase

theorem post_session (C : Canon) (rigger : EnvRigger) (session : HarnessSession) (s : SessionState) :
    post (S := harnessSig) (fun _ _ => True) (fun _ _ log => Settles C session log)
      (session.reset C >>= conclude C rigger session) s [] := by
  have hstart : Since (fun _ => True) [] s [] := ⟨trivial, [], rfl, unmaterialized_nil⟩
  rw [post_bind, reset, post_bind]
  refine post_mono (fun r s' log hprior => ?_) _ (stays_priorTeardown s [] hstart)
  have hlog := unmaterialized_of_since hprior
  match r with
  | .error e => exact settles_of_unmaterialized hlog
  | .ok () =>
    rw [post_onOk, post_bind]
    refine post_materialize hlog (fun e log' hlog' => settles_of_unmaterialized hlog')
      fun base intent m hbase => ?_
    rw [post_onOk]
    dsimp only
    split
    · next episode haccepted hepisode =>
      rw [post_bind, post_modify, post_onOk]
      refine post_mono (fun r s' log' hprepared => ?_) _ (post_prepare (C := C) rfl m)
      obtain ⟨tail, rfl, htail, hend⟩ := hprepared
      have hsettles : ∀ more, Unmaterialized more → (TornDown episode.episodeId (tail ++ more) ∨
          Broken C session episode.episodeId (demands session) (tail ++ more)) →
          Settles C session (base ++ [⟨.materialize intent, .ok m⟩] ++ tail ++ more) := by
        intro more hmore h
        rw [List.append_assoc, List.append_assoc]
        exact settles hbase (htail.append hmore) hepisode h
      match r with
      | .error e =>
        have h := hsettles [] unmaterialized_nil
        rw [List.append_nil, List.append_nil] at h
        exact h (hend.imp_right fun hbroken => hbroken.2 e rfl)
      | .ok result =>
        rw [post_onOk]
        rcases hend with htorn | ⟨hs', -⟩
        · refine post_mono (fun _ _ log' hsince => ?_) _ (stays_conclude rigger result s'
            (base ++ [⟨.materialize intent, .ok m⟩] ++ tail)
            ⟨trivial, [], (List.append_nil _).symm, unmaterialized_nil⟩)
          obtain ⟨-, more, rfl, hmore⟩ := hsince
          exact hsettles more hmore (Or.inl (tornDown_append.mpr (Or.inl htorn)))
        · refine post_mono (fun _ _ log' hoff => ?_) _ (post_conclude hs' rigger result)
          obtain ⟨more, rfl, hmore, htorn⟩ := hoff
          exact hsettles more hmore (Or.inl (tornDown_append.mpr (Or.inr htorn)))
    · next hrefused =>
      rw [post_pure, post_onOk]
      have hm : materializes ⟨.materialize intent, .ok m⟩ = false := by
        cases haccepted : m.accepted with
        | false => simp [materializes, haccepted]
        | true =>
          cases hepisode : m.episode with
          | none => simp [materializes, hepisode]
          | some episode => exact absurd hepisode (hrefused episode haccepted)
      have hstill : Since (fun _ => True) [] s' (base ++ [⟨.materialize intent, .ok m⟩]) :=
        ⟨trivial, _, rfl, hbase.append (unmaterialized_singleton hm)⟩
      refine post_mono (fun _ _ log' hsince => ?_) _ (stays_conclude rigger _ s' _ hstill)
      exact settles_of_unmaterialized (unmaterialized_of_since hsince)

/-- A rollout tears down the episode it materializes, or tries to, exactly when its reset is not
abandoned : when no call of the reset raises on the way, and each stage action has an intent. -/
theorem rollout_tearsDown_iff (C : Canon) (rigger : EnvRigger) (task : TaskSpec)
    (ω : Oracle harnessSig) (s : SessionState) :
    TearsDown (exec ω (rollout C rigger task) s []).2.2 ↔
      ¬ Abandons C rigger task (exec ω (rollout C rigger task) s []).2.2 := by
  have hsettles : ∀ session, rigger.sessionFactory task = .ok session →
      Settles C session (exec ω (rollout C rigger task) s []).2.2 := by
    intro session hsession
    rw [rollout, hsession]
    exact exec_of_post (Q := fun _ _ log => Settles C session log) (A := fun _ _ => True)
      (fun _ _ => trivial) _ (post_session C rigger session s)
  constructor
  · rintro htears ⟨session, id, tail, hsession, hm, hbroken⟩
    exact (hsettles session hsession id tail hm).mp (htears id tail hm) hbroken
  · intro hkeeps id tail hm
    cases hsession : rigger.sessionFactory task with
    | error e =>
      rw [rollout, hsession] at hm
      exact absurd hm unmaterialized_nil.not_materialized
    | ok session =>
      exact (hsettles session hsession id tail hm).mpr fun hbroken =>
        hkeeps ⟨session, id, tail, hsession, hm, hbroken⟩

end Runs

/-! ### A checkpoint that raises -/

/-- A task without stages. -/
def plainTask : TaskSpec := { provider := "memory", harness := {}, provider_ne := memory_ne }

/-- A rigger whose policy does nothing. -/
def idleRigger : EnvRigger where
  sessionFactory task := .ok { task }
  policy _ _ _ := .ok none
  maxSteps_pos := by decide

def plainEpisode : Episode := ⟨"episode", "memory", "environment", none, .alive⟩

def plainWorld : MaterializationResult where
  accepted := true
  standing := .alive
  episode := some plainEpisode
  receipt := { episodeId := "episode", operation := .materialize, standing := .alive }

/-- The episode exists, and its checkpoint raises. -/
def uncheckpointed : (c : RuntimeCall) → Except Exc c.Value
  | .uuid4 => .ok "key"
  | .materialize _ => .ok plainWorld
  | .checkpoint _ => .error (.provider ⟨"ConnectionError", "checkpoint"⟩)
  | .capabilities _ | .observe _ | .read .. | .act _ | .verify .. | .restore .. | .teardown .. =>
    .error (.keyError "episode")

def plainIntent : MaterializationIntent := { provider := "memory", idempotencyKey := "key" }

theorem rollout_leaks : ¬ TearsDown
    (exec (fun _ => uncheckpointed) (rollout .reference idleRigger plainTask) {} []).2.2 := by
  obtain ⟨bytes, hbytes⟩ := Fallible.exists_eq_ok_of_isOk
    (x := Canon.reference.canonicalBytes plainIntent.modelDump) (by decide +kernel)
  have hrun : post (S := harnessSig) (fun c r => r = uncheckpointed c)
      (fun _ _ log => log = [⟨.uuid4, .ok "key"⟩, ⟨.materialize plainIntent, .ok plainWorld⟩,
        ⟨.checkpoint "episode", .error (.provider ⟨"ConnectionError", "checkpoint"⟩)⟩])
      (rollout .reference idleRigger plainTask) {} [] := by
    rw [rollout, post_bind, post_lift, idleRigger, post_onOk, post_bind, reset, post_bind,
      priorTeardown, post_bind, post_getState, post_onOk, if_neg (by simp), post_pure, post_onOk,
      post_bind, HarnessSession.materialize, post_bind, post_callNow]
    rintro _ rfl
    rw [uncheckpointed, post_onOk]
    dsimp only
    rw [post_bind, validated]
    split
    · next e hinvalid => cases hbytes.symm.trans hinvalid
    · intro r hr
      obtain rfl : r = uncheckpointed (.materialize plainIntent) := hr
      intro r hr
      obtain rfl : r = uncheckpointed (.checkpoint "episode") := hr
      rfl
  have hlog := post_answers _ |>.mp hrun
  rw [hlog]
  intro htears
  obtain ⟨authorityRef, r, hmem⟩ := htears "episode" _
    ⟨[⟨.uuid4, .ok "key"⟩], plainIntent, plainWorld, plainEpisode, rfl, rfl, rfl, rfl⟩
  simp at hmem

end EnvRigger

end GymAct
