import GymAct.Harness

/-!
# What the contracts of a harness admit

`admit` takes the rules of all contracts once, in order, each against the action as the rules
before it left it (`post_admitRules`). A deny rule has its say at its turn only : a later
rule can give the action the capability it forbids (`rewritten_around`), and that is the one
way to pass it (`admitted_past_deny`).
-/

namespace GymAct

open Coop Coop.Prog

namespace HarnessSession

/-- The rules of all contracts, in the order `admit` takes them. -/
def contractRules (session : HarnessSession) : List ContractRule :=
  session.task.harness.contracts.flatMap Contract.rules

/-- The action once a rule that does not deny it had its turn. -/
def pass (raw : Observation) (history : List HarnessAction) (current : HarnessAction)
    (rule : ContractRule) : HarnessAction :=
  if applies rule current raw history then rewrite rule current else current

/-- The action once these rules had their turn. -/
def passed (raw : Observation) (history : List HarnessAction) (rules : List ContractRule)
    (action : HarnessAction) : HarnessAction :=
  rules.foldl (pass raw history) action

section Rules

variable {raw : Observation} {history : List HarnessAction} {rule : ContractRule}
  {rules : List ContractRule} {action current : HarnessAction}

@[simp] theorem passed_nil : passed raw history [] action = action := rfl

@[simp] theorem passed_cons :
    passed raw history (rule :: rules) action =
      passed raw history rules (pass raw history action rule) := rfl

theorem passed_append (pre post : List ContractRule) :
    passed raw history (pre ++ post) action =
      passed raw history post (passed raw history pre action) := List.foldl_append

/-- Whether a rule applies depends on the capability of the action alone. -/
theorem applies_congr {other : HarnessAction} (h : other.capability = action.capability) :
    applies rule other raw history = applies rule action raw history := by
  simp only [applies, h]

/-- A rule that changes the capability rewrites, to its target. -/
theorem pass_capability :
    (pass raw history current rule).capability = current.capability ∨
      (applies rule current raw history = true ∧ rule.effect = .rewrite ∧
        rule.rewriteCapability = some (pass raw history current rule).capability) := by
  by_cases happlies : applies rule current raw history = true
  · by_cases heffect : rule.effect = .rewrite
    · obtain ⟨target, htarget, hne⟩ := rule.rewrite_requires heffect
      have hcapability : (pass raw history current rule).capability = target := by
        simp [pass, happlies, rewrite, rewrittenCapability, heffect, htarget, hne]
      exact Or.inr ⟨happlies, heffect, hcapability ▸ htarget⟩
    · refine Or.inl ?_
      simp only [pass, happlies, if_true, rewrite, rewrittenCapability]
      split
      · next h _ => exact absurd h heffect
      · rfl
  · exact Or.inl (by rw [pass, if_neg happlies])

/-- The action gets a capability it does not have from a rule that rewrites to it. -/
theorem exists_rewrite {capability : String} (hbefore : action.capability ≠ capability)
    (hafter : (passed raw history rules action).capability = capability) :
    ∃ mid later post, rules = mid ++ later :: post ∧
      applies later (passed raw history mid action) raw history = true ∧
      later.effect = .rewrite ∧ later.rewriteCapability = some capability := by
  induction rules generalizing action with
  | nil => exact absurd hafter hbefore
  | cons rule rules ih =>
    by_cases hrule : (pass raw history action rule).capability = capability
    · have hturn : (pass raw history action rule).capability = action.capability ∨
          (applies rule action raw history = true ∧ rule.effect = .rewrite ∧
            rule.rewriteCapability = some (pass raw history action rule).capability) :=
        pass_capability
      rcases hturn with hsame | ⟨happlies, heffect, htarget⟩
      · exact absurd (hsame.symm.trans hrule) hbefore
      · exact ⟨[], rule, rules, rfl, happlies, heffect, htarget.trans (congrArg some hrule)⟩
    · obtain ⟨mid, later, post, rfl, happlies, hlater⟩ := ih hrule hafter
      exact ⟨rule :: mid, later, post, rfl, happlies, hlater⟩

end Rules

/-! ## The pass over the rules -/

section Pass

variable {A : (c : RuntimeCall) → Except Exc c.Value → Prop} {C : Canon} {session : HarnessSession}
  {raw : Observation} {s : SessionState} {log : Log harnessSig}

/-- A digest is computed without effects. -/
theorem post_decisionDigest {Q : Except Exc String → SessionState → Log harnessSig → Prop}
    (hQ : ∀ r, Q r s log) (action : HarnessAction) (admitted : Bool) (reason : String)
    (feedback : List String) :
    post (S := harnessSig) A Q (decisionDigest C session action raw admitted reason feedback) s
      log := by
  simp only [decisionDigest, digestOrRaise, post_bind, post_getState, post_onOk, post_lift]
  rcases session.task.harness.semanticDigest C with e | semantic
  · exact hQ _
  · exact hQ _

/-- What an admitted action says of the rules it was taken through. -/
structure PassedBy (raw : Observation) (history : List HarnessAction) (rules : List ContractRule)
    (action admitted : HarnessAction) : Prop where
  admitted_eq : admitted = passed raw history rules action
  /-- No deny rule applied at its turn. -/
  not_denied : ∀ pre rule rest, rules = pre ++ rule :: rest → rule.effect = .deny →
    applies rule (passed raw history pre action) raw history = false

theorem PassedBy.cons {history : List HarnessAction} {rule : ContractRule}
    {rules : List ContractRule} {action admitted : HarnessAction}
    (h : PassedBy raw history rules (pass raw history action rule) admitted)
    (hrule : rule.effect = .deny → applies rule action raw history = false) :
    PassedBy raw history (rule :: rules) action admitted where
  admitted_eq := h.admitted_eq
  not_denied := by
    intro pre denying rest heq heffect
    cases pre with
    | nil =>
      obtain ⟨rfl, rfl⟩ := List.cons.inj heq
      exact hrule heffect
    | cons first pre =>
      obtain ⟨rfl, rfl⟩ := List.cons.inj heq
      exact h.not_denied pre denying rest rfl heffect

/-- The loop makes no call, changes nothing, and admits what it took through the rules. -/
theorem post_admitRules (rules : List ContractRule) :
    ∀ current reason feedback, post (S := harnessSig) A
      (fun r s' log' => s' = s ∧ log' = log ∧ ∀ decision, r = .ok decision →
        decision.admitted = true → PassedBy raw s.history rules current decision.action)
      (admitRules C session raw rules current reason feedback) s log := by
  induction rules with
  | nil =>
    intro current reason feedback
    rw [admitRules, post_bind]
    refine post_decisionDigest (fun r => ?_) current true reason feedback
    rcases r with e | evidenceDigest
    · exact ⟨rfl, rfl, fun _ h => by cases h⟩
    · refine ⟨rfl, rfl, ?_⟩
      rintro _ ⟨rfl⟩ -
      exact ⟨rfl, fun pre _ _ h => absurd h (by simp)⟩
  | cons rule rules ih =>
    intro current reason feedback
    simp only [admitRules, post_bind, post_getState, post_onOk]
    by_cases happlies : applies rule current raw s.history = true
    · rw [if_pos happlies]
      by_cases heffect : rule.effect = .deny
      · rw [if_pos heffect, post_bind]
        refine post_decisionDigest (fun r => ?_) current false rule.reason _
        rcases r with e | evidenceDigest
        · exact ⟨rfl, rfl, fun _ h => by cases h⟩
        · refine ⟨rfl, rfl, ?_⟩
          rintro _ ⟨rfl⟩ ⟨⟩
      · rw [if_neg heffect]
        refine post_mono (fun r _ _ hr => ⟨hr.1, hr.2.1, fun decision hd hadmitted => ?_⟩) _
          (ih (rewrite rule current) rule.reason _)
        have hpass : pass raw s.history current rule = rewrite rule current := if_pos happlies
        exact (hpass ▸ hr.2.2 decision hd hadmitted).cons fun h => absurd h heffect
    · rw [if_neg happlies]
      refine post_mono (fun r _ _ hr => ⟨hr.1, hr.2.1, fun decision hd hadmitted => ?_⟩) _
        (ih current reason feedback)
      have hpass : pass raw s.history current rule = current := if_neg happlies
      exact (hpass.symm ▸ hr.2.2 decision hd hadmitted).cons fun _ => Bool.eq_false_of_not_eq_true happlies

end Pass

/-! ## Admitted actions -/

/-- A deny rule whose capability is that of the action, and whose conditions hold. -/
def Forbids (raw : Observation) (history : List HarnessAction) (rule : ContractRule)
    (action : HarnessAction) : Prop :=
  rule.effect = .deny ∧ applies rule action raw history = true

/-- `admit` observes a state, and admits an action. -/
structure Admits (C : Canon) (session : HarnessSession) (ω : Oracle harnessSig) (s : SessionState)
    (log : Log harnessSig) (action : HarnessAction) (raw : Observation)
    (decision : ContractDecision) : Prop where
  observed : ∃ episodeId, s.episodeId = some episodeId ∧ ω log (.observe episodeId) = .ok raw
  returned : (exec ω (admitAction C session action) s log).1 = .ok decision
  admitted : decision.admitted = true

section Admits

variable {C : Canon} {session : HarnessSession} {ω : Oracle harnessSig} {s : SessionState}
  {log : Log harnessSig} {action : HarnessAction} {raw : Observation} {decision : ContractDecision}

/-- `admit` is one pass over the rules in the state it observed. -/
theorem Admits.passedBy (h : Admits C session ω s log action raw decision) :
    PassedBy raw s.history session.contractRules action decision.action := by
  obtain ⟨episodeId, hepisode, hraw⟩ := h.observed
  have hpost : post (S := harnessSig) (fun _ _ => True)
      (fun r _ log' => r = .ok decision → ∃ observed,
        log' = log ++ ⟨.observe episodeId, .ok observed⟩ :: [] ∧
          PassedBy observed s.history session.contractRules action decision.action)
      (admitAction C session action) s log := by
    have hcurrent : currentEpisode s = .ok episodeId := by rw [currentEpisode, hepisode]
    rw [admitAction, post_bind, rawObserve, post_bind, post_episode, hcurrent, post_onOk,
      post_call (.observe episodeId)]
    rintro (e | observed) -
    · intro h
      cases h
    · refine post_mono (fun r _ log' hr hok => ?_) _ (post_admitRules _ action "CONTRACT_ADMITTED" [])
      exact ⟨observed, hr.2.1, hr.2.2 decision hok h.admitted⟩
  obtain ⟨observed, hlog, hpassed⟩ := exec_of_post (fun _ _ => trivial) _ hpost h.returned
  have hanswer := eq_of_heq (Sigma.mk.inj (exec_head ω _ hlog)).2
  rw [hraw] at hanswer
  obtain rfl : observed = raw := by simpa using hanswer
  exact hpassed

/-- An admitted action that a deny rule forbids : when the rule had its turn the action had
another capability, and a later rule that applied rewrote it to the one it has. -/
theorem admitted_past_deny (h : Admits C session ω s log action raw decision)
    {pre rest : List ContractRule} {rule : ContractRule}
    (hrules : session.contractRules = pre ++ rule :: rest)
    (hforbids : Forbids raw s.history rule decision.action) :
    (passed raw s.history pre action).capability ≠ decision.action.capability ∧
      ∃ mid later post, rest = mid ++ later :: post ∧ later.effect = .rewrite ∧
        later.rewriteCapability = some decision.action.capability ∧
        applies later (passed raw s.history (pre ++ rule :: mid) action) raw s.history = true := by
  obtain ⟨hdeny, happlies⟩ := hforbids
  have hpassed := h.passedBy
  have hbefore : applies rule (passed raw s.history pre action) raw s.history = false :=
    hpassed.not_denied pre rule rest hrules hdeny
  have hchanged : (passed raw s.history pre action).capability ≠ decision.action.capability := by
    intro hsame
    rw [applies_congr hsame, happlies] at hbefore
    exact Bool.noConfusion hbefore
  have hskip : pass raw s.history (passed raw s.history pre action) rule =
      passed raw s.history pre action := by rw [pass, hbefore, if_neg Bool.false_ne_true]
  have hafter : (passed raw s.history rest (passed raw s.history pre action)).capability =
      decision.action.capability := by
    rw [hpassed.admitted_eq, hrules, passed_append, passed_cons, hskip]
  obtain ⟨mid, later, post, hrest, hlater, heffect, htarget⟩ := exists_rewrite hchanged hafter
  refine ⟨hchanged, mid, later, post, hrest, heffect, htarget, ?_⟩
  rw [passed_append, passed_cons, hskip]
  exact hlater

end Admits

/-! ## A rule that is rewritten around -/

/-- Actions of one capability are never let through. -/
def denyRule (capability : String) (hne : capability ≠ "") : ContractRule where
  capability := capability
  effect := .deny
  capability_ne := hne
  rewrite_requires := nofun
  rewrite_only := fun _ => rfl
  deny_keeps := fun _ => ⟨rfl, rfl⟩
  consecutive_pos := by simp

/-- Actions of one capability become actions of another. -/
def rewriteRule (capability target : String) (hne : capability ≠ "") (htarget : target ≠ "") :
    ContractRule where
  capability := capability
  effect := .rewrite
  rewriteCapability := some target
  capability_ne := hne
  rewrite_requires := fun _ => ⟨target, rfl, htarget⟩
  rewrite_only := fun h => absurd rfl h
  deny_keeps := nofun
  consecutive_pos := by simp

/-- Increments are denied, and then what sets a value increments it. -/
def rewritingSession : HarnessSession where
  task :=
    { provider := "memory"
      harness :=
        { contracts := [⟨[denyRule "INC" (by decide),
            rewriteRule "SET" "INC" (by decide) (by decide)], [], by simp, .nil⟩]
          identifier := "h" }
      provider_ne := memory_ne }

def setValue : HarnessAction where
  capability := "SET"
  idempotencyKey := "k"
  capability_ne := by decide
  key_ne := GymAct.key_ne

/-- A runtime where an episode observes nothing, and nothing else works. -/
def observing : Oracle harnessSig := fun _ call =>
  match call with
  | .observe episodeId => .ok ⟨episodeId, [], ""⟩
  | _ => .error (runtimeError "NOT_OBSERVED")

theorem setValue_admitted : ∃ decision,
    Admits .reference rewritingSession observing { episodeId := some "e" } [] setValue ⟨"e", [], ""⟩
      decision ∧ decision.action.capability = "INC" := by
  have hrun : (exec observing (admitAction .reference rewritingSession setValue)
      { episodeId := some "e" } []).1.toOption.map (fun d => (d.admitted, d.action.capability)) =
        some (true, "INC") := by decide +kernel
  rcases hreturned : (exec observing (admitAction .reference rewritingSession setValue)
      { episodeId := some "e" } []).1 with e | decision
  · rw [hreturned] at hrun
    exact absurd hrun nofun
  · rw [hreturned] at hrun
    obtain ⟨hadmitted, hcapability⟩ := Prod.mk.inj (Option.some.inj hrun)
    exact ⟨decision, ⟨⟨"e", rfl, rfl⟩, hreturned, hadmitted⟩, hcapability⟩

theorem denyIncrement_forbids {action : HarnessAction} (h : action.capability = "INC") :
    Forbids ⟨"e", [], ""⟩ [] (denyRule "INC" (by decide)) action :=
  ⟨rfl, by simp [applies, denyRule, h]⟩

/-- The admitted action is one that the first rule forbids. -/
theorem rewritten_around : ¬ ∀ (session : HarnessSession) (ω : Oracle harnessSig)
    (s : SessionState) (log : Log harnessSig) (action : HarnessAction) (raw : Observation)
    (decision : ContractDecision), Admits .reference session ω s log action raw decision →
      ∀ rule ∈ session.contractRules, ¬ Forbids raw s.history rule decision.action := by
  intro h
  obtain ⟨decision, hadmits, hcapability⟩ := setValue_admitted
  exact h _ _ _ _ _ _ decision hadmits _ List.mem_cons_self (denyIncrement_forbids hcapability)

theorem admitted_past_deny_setValue : ∃ decision,
    Admits .reference rewritingSession observing { episodeId := some "e" } [] setValue ⟨"e", [], ""⟩
      decision ∧ setValue.capability ≠ decision.action.capability := by
  obtain ⟨decision, hadmits, hcapability⟩ := setValue_admitted
  exact ⟨decision, hadmits, (admitted_past_deny hadmits (List.nil_append _).symm
    (denyIncrement_forbids hcapability)).1⟩

end HarnessSession

end GymAct
