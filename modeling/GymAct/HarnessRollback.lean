import GymAct.HarnessContracts
import GymAct.KernelRuns
import GymAct.SessionKernel

/-!
# What a step leaves of its effect

A step that is not accepted goes back to its checkpoint on one exit : the postcondition of an
accepted actuation did not hold. It does not when the actuation is rejected, when a call of the
runtime raises, or when the postcondition of a READ capability does not hold (`Unprotected`), and
then an effect of the environment stays (`rejected_keeps_effect`).

`step_shape` says how a step can end, by the calls it made and what it returned. Over the kernel
and a faithful environment, `not_accepted_undone_iff` : a step that is not accepted leaves the
environment as it was exactly when the environment itself did so wherever the step does not roll
back.
-/

namespace GymAct

open Coop Coop.Prog

namespace HarnessSession

/-! ## Answers of the runtime -/

/-- A call of the runtime with its answer. -/
abbrev Answer := Σ c : RuntimeCall, Except Exc c.Value

def raised : Answer → Bool
  | ⟨_, .error _⟩ => true
  | ⟨_, .ok _⟩ => false

/-- An actuation that is not accepted. -/
def rejected : Answer → Bool
  | ⟨.act _, .ok result⟩ => !result.accepted
  | _ => false

/-- A rollback that succeeded. -/
def rolledBack : Answer → Bool
  | ⟨.restore .., .ok receipt⟩ => receipt.standing.good
  | _ => false

def isRead : Answer → Bool
  | ⟨.read .., _⟩ => true
  | _ => false

/-- A verification that did not pass. -/
def refuted : Answer → Bool
  | ⟨.verify .., .ok result⟩ => !result.passed
  | _ => false

/-- The calls of a step that ends without having been rolled back : one raised, or the actuation
was rejected, or the postcondition of a READ capability did not hold. -/
def Unprotected (calls : List Answer) : Bool :=
  !calls.any rolledBack &&
    (calls.any raised || calls.any rejected || (calls.any isRead && calls.any refuted))

/-- A step that raised, or is not accepted without the receipt of a failed rollback. -/
def Uncommitted : Except Exc HarnessStepResult → Prop
  | .error _ => True
  | .ok result =>
    result.accepted = false ∧
      ∀ receipt, result.rollbackReceipt = some receipt → receipt.standing.good = true

/-- How a step of an episode can end. -/
inductive StepShape (id : String) : Except Exc HarnessStepResult → List Answer → Prop
  /-- Nothing but looks. -/
  | looked {r : Except Exc HarnessStepResult} {calls : List Answer} (hr : Uncommitted r)
      (hcalls : ∀ e ∈ calls, e.1.looks = true) : StepShape id r calls
  | exposed {r : Except Exc HarnessStepResult} {calls : List Answer} (hr : Uncommitted r)
      (hcalls : Unprotected calls = true) : StepShape id r calls
  | committed {r : Except Exc HarnessStepResult} {calls : List Answer} (hr : ¬ Uncommitted r)
      (hcalls : Unprotected calls = false) : StepShape id r calls
  /-- Back to the checkpoint the step took first. -/
  | undone {r : Except Exc HarnessStepResult} {pre mid rest : List Answer} {saved : Payload}
      {authorityRef : Option String} {receipt : Receipt} (hr : Uncommitted r)
      (hpre : ∀ e ∈ pre, e.1.looks = true) (hmid : ∀ e ∈ mid, e.1.onEpisode = true)
      (hrest : ∀ e ∈ rest, e.1.looks = true) (hgood : receipt.standing.good = true) :
      StepShape id r (pre ++ ⟨.checkpoint id, .ok saved⟩ :: mid ++
        ⟨.restore id saved authorityRef, .ok receipt⟩ :: rest)

/-! ## Calls that look -/

/-- Looks that were answered. -/
structure Calm (calls : List Answer) : Prop where
  looks : ∀ e ∈ calls, e.1.looks = true
  answered : ∀ e ∈ calls, raised e = false

theorem Calm.nil : Calm [] := ⟨by simp, by simp⟩

theorem Calm.snoc {calls : List Answer} (h : Calm calls) {c : RuntimeCall} (hc : c.looks = true)
    (v : c.Value) : Calm (calls ++ [⟨c, .ok v⟩]) :=
  ⟨List.forall_mem_append.mpr ⟨h.looks, List.forall_mem_singleton.mpr hc⟩,
    List.forall_mem_append.mpr ⟨h.answered, List.forall_mem_singleton.mpr rfl⟩⟩

theorem looks_snoc {calls : List Answer} (h : ∀ e ∈ calls, e.1.looks = true) {e : Answer}
    (he : e.1.looks = true) : ∀ x ∈ calls ++ [e], x.1.looks = true :=
  List.forall_mem_append.mpr ⟨h, List.forall_mem_singleton.mpr he⟩

theorem any_of_looks {calls : List Answer} {p : Answer → Bool} (h : ∀ e ∈ calls, e.1.looks = true)
    (hp : ∀ e : Answer, e.1.looks = true → p e = false) : calls.any p = false :=
  List.any_eq_false.mpr fun e he => by rw [hp e (h e he)]; exact Bool.false_ne_true

/-- Looks are none of the calls a step can go wrong with. -/
theorem of_looks (e : Answer) (h : e.1.looks = true) :
    rejected e = false ∧ rolledBack e = false ∧ isRead e = false ∧ refuted e = false := by
  obtain ⟨c, r⟩ := e
  cases c with
  | capabilities | observe | checkpoint => exact ⟨rfl, rfl, rfl, rfl⟩
  | _ => exact absurd h nofun

/-- Answered looks do not matter. -/
theorem Calm.unprotected {calls : List Answer} (h : Calm calls) (more : List Answer) :
    Unprotected (calls ++ more) = Unprotected more := by
  have hraised : calls.any raised = false :=
    List.any_eq_false.mpr fun e he => by rw [h.answered e he]; exact Bool.false_ne_true
  simp only [Unprotected, List.any_append, hraised,
    any_of_looks h.looks fun e he => (of_looks e he).1,
    any_of_looks h.looks fun e he => (of_looks e he).2.1,
    any_of_looks h.looks fun e he => (of_looks e he).2.2.1,
    any_of_looks h.looks fun e he => (of_looks e he).2.2.2, Bool.false_or]

/-! ## The exits of a step -/

section Exits

variable {C : Canon} {session : HarnessSession} {id : String} {s : SessionState} {log : List Answer}

/-- A step ends in one of its shapes. -/
abbrev EndsAs (id : String) (p : HarnessM HarnessStepResult) (s : SessionState)
    (log : List Answer) : Prop :=
  post (S := harnessSig) (fun _ _ => True) (fun r _ calls => StepShape id r calls) p s log

/-- An exit looks at the episode once more. -/
theorem endsAs_observe (hs : s.episodeId = some id) {f : Payload → HarnessStepResult}
    (herr : ∀ e, StepShape id (.error e) (log ++ [⟨.observe id, .error e⟩]))
    (hok : ∀ raw state, StepShape id (.ok (f state)) (log ++ [⟨.observe id, .ok raw⟩])) :
    EndsAs id (observe session >>= fun observation => pure (f observation)) s log := by
  have hcurrent : currentEpisode s = .ok id := by rw [currentEpisode, hs]
  rw [EndsAs, post_bind, observe, post_bind, rawObserve, post_bind, post_episode, hcurrent, post_onOk]
  refine post_call_cases (fun e => herr e) fun raw => ?_
  rw [post_onOk, post_bind, post_getState, post_onOk]
  split
  · exact hok raw _
  · exact hok raw _

/-- An exit once something went wrong after the looks. -/
theorem endsAs_exposed (hs : s.episodeId = some id) {pre more : List Answer} (hpre : Calm pre)
    (hlog : log = pre ++ more) (hmore : Unprotected more = true) {f : Payload → HarnessStepResult}
    (hf : ∀ state, Uncommitted (.ok (f state))) :
    EndsAs id (observe session >>= fun observation => pure (f observation)) s log := by
  have hstill : ∀ a, Unprotected (more ++ [⟨.observe id, a⟩]) = true := by
    intro a
    simp only [Unprotected, Bool.and_eq_true, Bool.or_eq_true, Bool.not_eq_true'] at hmore ⊢
    simp only [List.any_append, List.any_cons, List.any_nil, rolledBack, Bool.or_false]
    exact ⟨hmore.1, hmore.2.imp (Or.imp (by simp +contextual) (by simp +contextual))
      (by simp +contextual)⟩
  subst hlog
  refine endsAs_observe hs (fun e => .exposed trivial ?_) fun raw state => .exposed (hf state) ?_
  all_goals rw [List.append_assoc, hpre.unprotected, hstill]

/-- An exit with nothing wrong, or after a rollback that failed. -/
theorem endsAs_committed (hs : s.episodeId = some id) {pre more : List Answer} (hpre : Calm pre)
    (hlog : log = pre ++ more) (hmore : Unprotected more = false) (hback : more.any rolledBack = false)
    {f : Payload → HarnessStepResult} (hf : ∀ state, ¬ Uncommitted (.ok (f state))) :
    EndsAs id (observe session >>= fun observation => pure (f observation)) s log := by
  subst hlog
  refine endsAs_observe hs (fun e => .exposed trivial ?_) fun raw state => .committed (hf state) ?_
  · rw [List.append_assoc, hpre.unprotected]
    simp [Unprotected, hback, rolledBack, raised]
  · rw [List.append_assoc, hpre.unprotected]
    simp only [Unprotected, hback, Bool.not_false, Bool.true_and] at hmore
    simp only [Unprotected, List.any_append, List.any_cons, List.any_nil, hback, rolledBack, raised,
      rejected, isRead, refuted, Bool.or_false, Bool.not_false, Bool.true_and]
    exact hmore

/-- A call that raises after the looks, before any rollback. -/
theorem shape_raised {pre more : List Answer} (hpre : Calm pre) (hlog : log = pre ++ more)
    (hback : more.any rolledBack = false) (c : RuntimeCall) (e : Exc) :
    StepShape id (.error e) (log ++ [⟨c, .error e⟩]) := by
  subst hlog
  refine .exposed trivial ?_
  rw [List.append_assoc, hpre.unprotected]
  have hc : rolledBack ⟨c, .error e⟩ = false := by cases c <;> rfl
  simp [Unprotected, hback, hc, raised]

/-- An exit with nothing but looks. -/
theorem endsAs_looked (hs : s.episodeId = some id) (hlog : ∀ e ∈ log, e.1.looks = true)
    {f : Payload → HarnessStepResult} (hf : ∀ state, Uncommitted (.ok (f state))) :
    EndsAs id (observe session >>= fun observation => pure (f observation)) s log :=
  endsAs_observe hs (fun _ => .looked trivial (looks_snoc hlog rfl))
    fun _ state => .looked (hf state) (looks_snoc hlog rfl)

end Exits

/-! ## READ capabilities -/

section Parts

variable {C : Canon} {session : HarnessSession} {id : String} {s : SessionState} {log : List Answer}

theorem uncommitted_of_refused {result : HarnessStepResult} (h : result.accepted = false)
    (hrollback : result.rollbackReceipt = none) : Uncommitted (.ok result) :=
  ⟨h, fun receipt hreceipt => by rw [hrollback] at hreceipt; cases hreceipt⟩

theorem not_uncommitted_of_accepted {result : HarnessStepResult} (h : result.accepted = true) :
    ¬ Uncommitted (.ok result) := fun hr => by rw [Uncommitted, h] at hr; exact Bool.noConfusion hr.1

/-- An accepted step remembers its action. -/
theorem endsAs_remember (hs : s.episodeId = some id) {pre more : List Answer} (hpre : Calm pre)
    (hlog : log = pre ++ more) (hmore : Unprotected more = false) (hback : more.any rolledBack = false)
    (action : HarnessAction) {f : Payload → HarnessStepResult} (hf : ∀ state, (f state).accepted = true) :
    EndsAs id (remember action >>= fun _ => observe session >>= fun observation =>
      pure (f observation)) s log := by
  rw [EndsAs, post_bind, remember, post_modify, post_onOk]
  have hs' : ({ s with history := s.history ++ [action] } : SessionState).episodeId = some id := hs
  exact endsAs_committed hs' hpre hlog hmore hback fun state => not_uncommitted_of_accepted (hf state)

theorem endsAs_stepRead (hs : s.episodeId = some id) (hlog : Calm log)
    (decision : ContractDecision) : EndsAs id (stepRead session decision) s log := by
  have hcurrent : currentEpisode s = .ok id := by rw [currentEpisode, hs]
  rw [EndsAs, stepRead, post_bind, post_episode, hcurrent, post_onOk, post_bind]
  refine post_call_cases (fun e => shape_raised hlog (List.append_nil _).symm rfl _ e)
    fun readResult => ?_
  rw [post_onOk, post_bind, verifyStepPostcondition]
  rcases decision.action.expectedAfter with _ | expected
  · rw [post_pure, post_onOk, failed, if_neg Bool.false_ne_true]
    refine endsAs_remember hs hlog rfl ?_ ?_ _ fun _ => ?_
    all_goals rfl
  · rw [post_map, verify, post_bind, post_episode, hcurrent, post_onOk]
    refine post_call_cases (fun e => ?_) fun verification => ?_
    · exact shape_raised hlog rfl rfl _ e
    · rw [Except.map, post_onOk, failed]
      rcases hpassed : verification.passed with _ | _
      · rw [if_pos Bool.not_false]
        refine endsAs_exposed hs hlog (List.append_assoc _ _ _) ?_ fun _ => ?_
        · simp [Unprotected, rolledBack, isRead, refuted, hpassed]
        · exact uncommitted_of_refused rfl rfl
      · rw [if_neg (by simp)]
        refine endsAs_remember hs hlog (List.append_assoc _ _ _) ?_ ?_ _ fun _ => ?_
        · simp [Unprotected, rolledBack, raised, rejected, isRead, refuted, hpassed]
        · simp [rolledBack]
        · rfl

/-! ## DO capabilities -/

/-- A rollback : the environment is back, or the receipt says that it failed. -/
theorem endsAs_stepRollback (hs : s.episodeId = some id) {pre : List Answer} (hpre : Calm pre)
    {intent : ActuationIntent} {actuation : ActuationResult} {verification : VerificationResult}
    {saved expected : Payload} (haccepted : actuation.accepted = true)
    (hlog : log = pre ++ ⟨.checkpoint id, .ok saved⟩ :: [⟨.act intent, .ok actuation⟩,
      ⟨.verify id expected, .ok verification⟩]) (decision : ContractDecision) :
    EndsAs id (stepRollback session decision actuation (some verification) (some saved)) s log := by
  have hcurrent : currentEpisode s = .ok id := by rw [currentEpisode, hs]
  have hcalm : Calm (pre ++ [⟨.checkpoint id, .ok saved⟩]) := Calm.snoc (c := .checkpoint id) hpre rfl saved
  have hlog' : log = (pre ++ [⟨.checkpoint id, .ok saved⟩]) ++ [⟨.act intent, .ok actuation⟩,
      ⟨.verify id expected, .ok verification⟩] := by rw [hlog, List.append_cons]
  rw [EndsAs, stepRollback, post_bind, rollback, post_bind, post_episode, hcurrent, post_onOk]
  refine post_call_cases (fun e => shape_raised hcalm hlog' ?_ _ e) fun receipt => ?_
  · rfl
  rw [post_onOk]
  dsimp only
  rcases hgood : receipt.standing.good with _ | _
  · have hmore : log ++ [⟨.restore id saved session.authorityRef, .ok receipt⟩] =
        (pre ++ [⟨.checkpoint id, .ok saved⟩]) ++ [⟨.act intent, .ok actuation⟩,
          ⟨.verify id expected, .ok verification⟩,
          ⟨.restore id saved session.authorityRef, .ok receipt⟩] := by rw [hlog']; simp
    refine endsAs_committed hs hcalm hmore ?_ ?_ fun _ hr => ?_
    · simp [Unprotected, rolledBack, raised, rejected, isRead, haccepted]
    · simp [rolledBack, hgood]
    · exact Bool.false_ne_true (hgood.symm.trans (hr.2 receipt rfl))
  · have hshape : ∀ (r : Except Exc HarnessStepResult) (a : Except Exc Observation), Uncommitted r →
        StepShape id r (log ++ [⟨.restore id saved session.authorityRef, .ok receipt⟩] ++
          [⟨.observe id, a⟩]) := by
      intro r a hr
      have hcalls : StepShape id r (pre ++ ⟨.checkpoint id, .ok saved⟩ ::
          [⟨.act intent, .ok actuation⟩, ⟨.verify id expected, .ok verification⟩] ++
            ⟨.restore id saved session.authorityRef, .ok receipt⟩ :: [⟨.observe id, a⟩]) :=
        .undone hr hpre.looks (by simp [RuntimeCall.onEpisode]) (by simp [RuntimeCall.looks]) hgood
      rw [hlog]
      simpa using hcalls
    refine endsAs_observe hs (fun e => hshape _ _ trivial) fun raw state => hshape _ _ ⟨rfl, ?_⟩
    rintro _ ⟨rfl⟩
    exact hgood

/-- An actuation of the episode, or an intent without an encoding. -/
theorem post_actuate (hs : s.episodeId = some id) (action : HarnessAction)
    {Q : Except Exc ActuationResult → SessionState → List Answer → Prop}
    (hinvalid : ∀ e, Q (.error e) s log)
    (hcall : ∀ intent, post (S := harnessSig) (fun _ _ => True) Q (call (.act intent)) s log) :
    post (S := harnessSig) (fun _ _ => True) Q (actuate C session action) s log := by
  have hcurrent : currentEpisode s = .ok id := by rw [currentEpisode, hs]
  rw [actuate, post_bind, post_episode, hcurrent, post_onOk]
  dsimp only
  rw [post_bind, validated]
  split
  · exact hinvalid _
  · exact hcall _

/-- The rest of a step once its actuation was answered. -/
def afterActuation (session : HarnessSession) (decision : ContractDecision)
    (checkpoint : Option Payload) (actuation : ActuationResult) : HarnessM HarnessStepResult := do
  if actuation.accepted = false then
    let observation ← observe session
    pure { accepted := false, standing := actuation.standing, action := decision.action, observation,
           actuation := some actuation, contractDecision := some decision,
           reason := actuation.receipt.reason }
  else
    let verification ← verifyStepPostcondition session decision.action
    if failed verification then stepRollback session decision actuation verification checkpoint
    else
      remember decision.action
      let observation ← observe session
      pure { accepted := true, standing := actuation.standing, action := decision.action, observation,
             actuation := some actuation, contractDecision := some decision,
             postconditionVerification := verification, reason := actuation.receipt.reason }

theorem stepDo_eq (decision : ContractDecision) :
    stepDo C session decision = stepCheckpoint decision.action >>= fun checkpoint =>
      actuate C session decision.action >>= afterActuation session decision checkpoint := rfl

theorem endsAs_afterActuation (hs : s.episodeId = some id) {pre : List Answer} (hpre : Calm pre)
    {checkpoint : Option Payload} {decision : ContractDecision}
    (hcheckpoint : decision.action.expectedAfter.isSome = true →
      ∃ looked saved, checkpoint = some saved ∧ Calm looked ∧
        pre = looked ++ [⟨.checkpoint id, .ok saved⟩])
    {intent : ActuationIntent} {actuation : ActuationResult}
    (hlog : log = pre ++ [⟨.act intent, .ok actuation⟩]) :
    EndsAs id (afterActuation session decision checkpoint actuation) s log := by
  have hcurrent : currentEpisode s = .ok id := by rw [currentEpisode, hs]
  rw [afterActuation]
  rcases haccepted : actuation.accepted with _ | _
  · rw [if_pos rfl]
    refine endsAs_exposed hs hpre hlog ?_ fun _ => uncommitted_of_refused rfl rfl
    simp [Unprotected, rolledBack, rejected, haccepted]
  rw [if_neg (by simp), EndsAs, post_bind, verifyStepPostcondition]
  rcases hexpected : decision.action.expectedAfter with _ | expected
  · rw [post_pure, post_onOk, failed, if_neg Bool.false_ne_true]
    refine endsAs_remember hs hpre hlog ?_ ?_ _ fun _ => rfl
    · simp [Unprotected, rolledBack, raised, rejected, isRead, haccepted]
    · simp [rolledBack]
  rw [post_map, verify, post_bind, post_episode, hcurrent, post_onOk]
  refine post_call_cases (fun e => shape_raised hpre hlog ?_ _ e) fun verification => ?_
  · simp [rolledBack]
  rw [Except.map, post_onOk, failed]
  have hlog' : log ++ [⟨.verify id ((some expected).getD session.task.goal), .ok verification⟩] =
      pre ++ [⟨.act intent, .ok actuation⟩,
        ⟨.verify id ((some expected).getD session.task.goal), .ok verification⟩] := by
    rw [hlog]
    simp
  rcases hpassed : verification.passed with _ | _
  · rw [if_pos Bool.not_false]
    obtain ⟨looked, saved, rfl, hlooked, rfl⟩ := hcheckpoint (by rw [hexpected]; rfl)
    exact endsAs_stepRollback hs hlooked haccepted (hlog'.trans (List.append_cons _ _ _).symm)
      decision
  · rw [if_neg (by simp)]
    refine endsAs_remember hs hpre hlog' ?_ ?_ _ fun _ => rfl
    · simp [Unprotected, rolledBack, raised, rejected, isRead, haccepted]
    · simp [rolledBack]

theorem endsAs_stepDo (hs : s.episodeId = some id) (hlog : Calm log)
    (decision : ContractDecision) : EndsAs id (stepDo C session decision) s log := by
  have hcurrent : currentEpisode s = .ok id := by rw [currentEpisode, hs]
  have hactuate : ∀ (checkpoint : Option Payload) (pre : List Answer), Calm pre →
      (decision.action.expectedAfter.isSome = true → ∃ looked saved, checkpoint = some saved ∧
        Calm looked ∧ pre = looked ++ [⟨.checkpoint id, .ok saved⟩]) →
      EndsAs id (actuate C session decision.action >>= afterActuation session decision checkpoint)
        s pre := by
    intro checkpoint pre hpre hcheckpoint
    rw [EndsAs, post_bind]
    refine post_actuate hs _ (fun e => .looked trivial hpre.looks) fun intent => ?_
    refine post_call_cases (fun e => shape_raised hpre (List.append_nil _).symm rfl _ e)
      fun actuation => ?_
    exact endsAs_afterActuation hs hpre hcheckpoint rfl
  rw [stepDo_eq, EndsAs, post_bind, stepCheckpoint]
  split
  · rw [post_bind, post_episode, hcurrent, post_onOk, post_map]
    refine post_call_cases (fun e => ?_) fun saved => ?_
    · exact .looked trivial (looks_snoc hlog.looks rfl)
    · exact hactuate (some saved) _ (Calm.snoc (c := .checkpoint id) hlog rfl saved)
        fun _ => ⟨log, saved, rfl, hlog, rfl⟩
  · next h => exact hactuate none log hlog fun h' => absurd h' h

/-- How a step ends, by the calls it makes and what they are answered. -/
theorem step_shape (C : Canon) (session : HarnessSession) (action : HarnessAction)
    (hs : s.episodeId = some id) : EndsAs id (step C session action) s [] := by
  have hcurrent : currentEpisode s = .ok id := by rw [currentEpisode, hs]
  rw [EndsAs, step, post_bind, admitAction, post_bind, rawObserve, post_bind, post_episode, hcurrent,
    post_onOk]
  refine post_call_cases (fun e => .looked trivial (by simp [RuntimeCall.looks])) fun raw => ?_
  refine post_mono (fun r s' log' h => ?_) _ (post_admitRules _ action "CONTRACT_ADMITTED" [])
  obtain ⟨rfl, rfl, -⟩ := h
  have hcalm : Calm ([] ++ [⟨.observe id, .ok raw⟩]) := Calm.nil.snoc (c := .observe id) rfl raw
  rcases r with e | decision
  · exact .looked trivial hcalm.looks
  rw [post_onOk, post_bind, post_modify, post_onOk]
  have hs' : ({ s' with feedback := s'.feedback ++ decision.feedback } : SessionState).episodeId =
      some id := hs
  have hcurrent' : currentEpisode { s' with feedback := s'.feedback ++ decision.feedback } = .ok id := by
    rw [currentEpisode, hs']
  split
  · exact endsAs_looked hs' hcalm.looks fun _ => uncommitted_of_refused rfl rfl
  · rw [post_bind, capability, post_bind, post_episode, hcurrent', post_onOk, post_bind]
    refine (post_callNow (.capabilities id)).mpr ?_
    rintro (e | capabilities) -
    · exact .exposed trivial (by rw [hcalm.unprotected]; rfl)
    have hcalm' := hcalm.snoc (c := .capabilities id) rfl capabilities
    rw [post_onOk, post_pure, post_onOk]
    split
    · refine endsAs_looked hs' hcalm'.looks fun _ => ?_
      exact uncommitted_of_refused rfl rfl
    · split
      · exact endsAs_stepRead hs' hcalm' decision
      · exact endsAs_stepDo hs' hcalm' decision

end Parts

/-! ## Steps over the kernel -/

section Kernel

variable {Λ : Type} {rt : Runtime Λ} {κ : Oracle (kernelSig Λ)} {k : KernelAt Λ} {id : String}
  {st : EpisodeState} {W : Type}

/-- What a step of a session over the kernel returns, with the calls it makes. -/
def steppedOver (rt : Runtime Λ) (κ : Oracle (kernelSig Λ)) (k : KernelAt Λ) (C : Canon)
    (session : HarnessSession) (s : SessionState) (action : HarnessAction) :
    Except Exc HarnessStepResult × List Answer :=
  ((exec (kernelRuntime rt κ k) (step C session action) s []).1,
    (exec (kernelRuntime rt κ k) (step C session action) s []).2.2)

variable (C : Canon) (session : HarnessSession) (s : SessionState) (action : HarnessAction)

theorem steppedOver_shape (hs : s.episodeId = some id) :
    StepShape id (steppedOver rt κ k C session s action).1 (steppedOver rt κ k C session s action).2 :=
  exec_of_post (fun _ _ => trivial) _ (step_shape C session action hs)

/-- Every call of a step is answered by the kernel, where the calls before it left it. -/
theorem steppedOver_answers {pre post : List Answer} {e : Answer}
    (h : (steppedOver rt κ k C session s action).2 = pre ++ e :: post) :
    e.2 = kernelRuntime rt κ k pre e.1 := by
  have he := exec_answers (kernelRuntime rt κ k) (step C session action) pre
    (h.trans (List.nil_append _).symm)
  rw [he]
  rfl

/-- A step over a faithful environment : it raises or is not accepted and leaves the environment as
it was, exactly when the environment is as it was wherever the step ends without a rollback. -/
theorem not_accepted_undone_iff (hC : rt.canon.Total) (hs : s.episodeId = some id)
    (hst : k.1.episodes id = some st) (E : FaithfulEnvironment κ st.environment W) :
    (Uncommitted (steppedOver rt κ k C session s action).1 →
        E.state (served rt κ k (steppedOver rt κ k C session s action).2).2 = E.state k.2) ↔
      (Unprotected (steppedOver rt κ k C session s action).2 = true →
        E.state (served rt κ k (steppedOver rt κ k C session s action).2).2 = E.state k.2) := by
  have hshape : StepShape id (steppedOver rt κ k C session s action).1
    (steppedOver rt κ k C session s action).2 := steppedOver_shape C session s action hs
  have hanswers : ∀ (pre post : List Answer) (e : Answer),
      (steppedOver rt κ k C session s action).2 = pre ++ e :: post →
        e.2 = kernelRuntime rt κ k pre e.1 := fun _ _ _ => steppedOver_answers C session s action
  generalize steppedOver rt κ k C session s action = run at hshape hanswers ⊢
  obtain ⟨r, calls⟩ := run
  cases hshape with
  | looked hr hcalls => exact iff_of_true (fun _ => served_state E hcalls k) fun _ => served_state E hcalls k
  | exposed hr hcalls => exact ⟨fun h _ => h hr, fun h _ => h hcalls⟩
  | committed hr hcalls =>
    exact iff_of_true (fun h => absurd h hr) fun h => absurd (hcalls.symm.trans h) Bool.false_ne_true
  | undone hr hpre hmid hrest hgood =>
    have hstate := state_of_rollback hC hst E hpre hmid hrest hgood
      (hanswers _ _ _ (List.append_assoc _ _ _)).symm (hanswers _ _ _ rfl).symm
    exact iff_of_true (fun _ => hstate) fun _ => hstate

end Kernel

/-! ## An effect that stays -/

/-- How often the environment was actuated, or what was restored since. -/
def counted (log : KernelLog) : ℕ :=
  log.foldl (fun n e =>
    match e.1 with
    | .actuate .. => n + 1
    | .restore _ _ [(_, .int saved)] => saved.toNat
    | _ => n) 0

/-- A counter that counts every actuation, and fails each one after it counted. -/
def failingCounter : KernelOracle := fun log c =>
  match c with
  | .checkpoint _ | .observe _ => .ok [("count", .int (counted log))]
  | .actuate .. => .error (.raised ⟨"RuntimeError", "NOT_ACKNOWLEDGED"⟩)
  | c => sampleOutside log c

def counterEpisode : EpisodeState where
  episode := ⟨"e", "memory", "urn:gymact:environment:counter", none, .alive⟩
  environment := ⟨0, "urn:gymact:environment:counter", false⟩

/-- Its checkpoints are the count. -/
def counterFaithful : FaithfulEnvironment failingCounter counterEpisode.environment ℕ where
  state := counted
  looks log c r hc := by
    cases c <;> first | exact False.elim hc | simp [counted]
  restores log more site saved hsaved _ := by
    obtain rfl : [("count", Value.int (counted log))] = saved := by simpa [failingCounter] using hsaved
    simp [counted]

def counterKernel : KernelAt MemoryReceiptLedger :=
  ({ newWorld with episodes := Function.update newWorld.episodes "e" (some counterEpisode) }, [])

theorem counterKernel_episodes : counterKernel.1.episodes "e" = some counterEpisode := by
  simp [counterKernel]

/-- A task without contracts. -/
def plainSession : HarnessSession where
  task := { provider := "memory", harness := { identifier := "h" }, provider_ne := memory_ne }

def countOnce : HarnessAction where
  capability := sampleCapability.iri
  idempotencyKey := "k"
  expectedAfter := some [("count", .int 1)]
  capability_ne := sampleCapability_ne
  key_ne := GymAct.key_ne

/-- One step of the session over the kernel. -/
def countingStep : Except Exc HarnessStepResult × List Answer :=
  steppedOver sampleRuntime failingCounter counterKernel .reference plainSession
    { episodeId := some "e" } countOnce

/-- The step is not accepted and nothing is rolled back, and the environment has counted. -/
theorem countingStep_counts :
    (countingStep.1.toOption.map fun result => (result.accepted, result.rollbackReceipt.isNone)) =
      some (false, true) ∧
    counted (served sampleRuntime failingCounter counterKernel countingStep.2).2 = 1 := by
  constructor <;> decide +kernel

/-- A rejected actuation keeps its effect. -/
theorem rejected_keeps_effect : ¬ ∀ (rt : Runtime MemoryReceiptLedger) (κ : KernelOracle)
    (k : KernelAt MemoryReceiptLedger) (session : HarnessSession) (s : SessionState)
    (action : HarnessAction) (id : String) (st : EpisodeState) (W : Type)
    (E : FaithfulEnvironment κ st.environment W), s.episodeId = some id →
      k.1.episodes id = some st → action.expectedAfter.isSome = true →
      Uncommitted (steppedOver rt κ k .reference session s action).1 →
        E.state (served rt κ k (steppedOver rt κ k .reference session s action).2).2 =
          E.state k.2 := by
  intro h
  obtain ⟨hresult, hcounted⟩ := countingStep_counts
  have huncommitted : Uncommitted countingStep.1 := by
    rcases hstep : countingStep.1 with e | result
    · trivial
    · rw [hstep] at hresult
      obtain ⟨haccepted, hnone⟩ := Prod.mk.inj (Option.some.inj hresult)
      exact uncommitted_of_refused haccepted (Option.isNone_iff_eq_none.mp hnone)
  have hundone := h sampleRuntime failingCounter counterKernel plainSession { episodeId := some "e" }
    countOnce "e" counterEpisode ℕ counterFaithful rfl counterKernel_episodes rfl huncommitted
  exact absurd (hcounted.symm.trans hundone) (by decide)

theorem not_accepted_undone_iff_counting :
    (Uncommitted countingStep.1 →
      counterFaithful.state (served sampleRuntime failingCounter counterKernel countingStep.2).2 =
        counterFaithful.state counterKernel.2) ↔
      (Unprotected countingStep.2 = true →
        counterFaithful.state (served sampleRuntime failingCounter counterKernel countingStep.2).2 =
          counterFaithful.state counterKernel.2) :=
  not_accepted_undone_iff .reference plainSession { episodeId := some "e" } countOnce
    Canon.reference_total rfl counterKernel_episodes counterFaithful

end HarnessSession

end GymAct
