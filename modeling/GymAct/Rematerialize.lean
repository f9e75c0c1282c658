import GymAct.ActTrace

/-!
# Materializing again

What `materialize` answers while the ledger takes its receipt and the authority resolver does
not raise (`Steady`, `LedgerTakes`). It returns (`post_materialize_answers`), and what it returned
is cached under its key : the next call with the same intent gets it from there, whatever became
of the episode since.
-/

namespace GymAct

open Coop Coop.Prog

variable {Λ : Type}

/-- Collaborators that answer : the resolver does not raise, the capabilities of an environment
are always the same, and an environment has an id. -/
def Steady (caps : Environment → List Capability) : (c : Call) → c.Reply → Prop
  | .authorize _, r => ∀ e, r ≠ .error (.raised e)
  | .capabilities env, r => r = .ok (caps env)
  | .materialize .., r => ∀ env : Environment, r = .ok env → env.environmentId ≠ ""
  | _, _ => True

/-- The ledger takes the receipt of a materialization. -/
def LedgerTakes (rt : Runtime Λ) (intent : MaterializationIntent) (w : World Λ) : Prop :=
  ∀ (receipt : Receipt) n, receipt.idempotencyKey = some intent.idempotencyKey →
    receipt.intendedEffects = [] → receipt.costs = [] → n = w.supply ∨ n = w.supply + 1 →
      ∃ L, rt.append w.ledger (receipt.stamped (rt.uuid4 n) (rt.now n)) = .ok L

/-- The episode of a materialization is registered, with all a controller reads of it. -/
structure Opened (m : MaterializationResult) (w : World Λ) : Prop where
  accepted : m.accepted = true
  episode : ∃ episode st, m.episode = some episode ∧ w.episodes episode.episodeId = some st ∧
    episode.episodeId ≠ "" ∧ episode.environmentId ≠ ""
  observed : m.observation ≠ none

/-- What `materialize` owes, where the receipt can be recorded. -/
structure Answered (intent : MaterializationIntent) (intentDigest : String) (w : World Λ)
    (m : MaterializationResult) (w' : World Λ) : Prop where
  cached : ∃ entry, w'.materializationIdempotency intent.idempotencyKey = some entry ∧
    (entry.intentDigest = intentDigest → entry.result = m) ∧
      (entry.intentDigest ≠ intentDigest → m.accepted = false ∧ m.standing = .refused)
  kept : ∀ entry, w.materializationIdempotency intent.idempotencyKey = some entry →
    w'.materializationIdempotency intent.idempotencyKey = some entry ∧ w'.episodes = w.episodes
  opened : w.materializationIdempotency intent.idempotencyKey = none → m.accepted = true →
    Opened m w'

section Materialize

variable {rt : Runtime Λ} {caps : Environment → List Capability} {w : World Λ}
  {log : Log (kernelSig Λ)} {intent : MaterializationIntent} {intentDigest : String}

/-- A receipt the ledger takes. -/
theorem post_exit_of_taken {receipt : Receipt} {result : Receipt → MaterializationResult}
    {cache : Bool} {Q : Except Exc MaterializationResult → World Λ → Log (kernelSig Λ) → Prop}
    (hres : ∀ r, (result r).receipt = r)
    (htaken : ∃ L, rt.append w.ledger (w.stamps rt receipt) = .ok L)
    (hQ : ∀ w', w'.episodes = w.episodes →
      w'.materializationIdempotency = (if cache then
        Function.update w.materializationIdempotency intent.idempotencyKey
          (some ⟨intentDigest, result (w.stamps rt receipt)⟩)
        else w.materializationIdempotency) →
      Q (.ok (result (w.stamps rt receipt))) w' log) :
    post (Steady caps) Q (materializationExit rt intent intentDigest receipt result cache) w log := by
  obtain ⟨L, hL⟩ := htaken
  rw [materializationExit_eq hres, post_bind, post_stamp, post_onOk, post_bind, post_record]
  refine ⟨fun e he => ?_, fun L' _ => ?_⟩
  · have hok : rt.append w.drawn.ledger (w.stamps rt receipt) = .ok L := hL
    cases hok.symm.trans he
  · rw [post_onOk, post_bind, post_modify, post_onOk, post_pure]
    cases cache
    · exact hQ _ rfl rfl
    · exact hQ _ rfl rfl

/-- A refusal to materialize that is cached. -/
theorem post_refusal_answers {receipt : Receipt} {w₀ : World Λ}
    (hnone : w₀.materializationIdempotency intent.idempotencyKey = none)
    (htaken : ∃ L, rt.append w.ledger (w.stamps rt receipt) = .ok L) :
    post (Steady caps) (fun r w' _ => ∃ m, r = .ok m ∧ Answered intent intentDigest w₀ m w')
      (materializationRefusal rt intent intentDigest receipt) w log := by
  refine post_exit_of_taken (fun _ => rfl) htaken fun w' _ hcache => ⟨_, rfl, ?_, ?_, ?_⟩
  · refine ⟨⟨intentDigest, _⟩, ?_, fun _ => rfl, fun h => absurd rfl h⟩
    rw [hcache, if_pos rfl, Function.update_self]
  · intro entry hentry
    rw [hnone] at hentry
    cases hentry
  · exact fun _ h => absurd h Bool.false_ne_true

/-- The environment is there : it is admitted and registered, or torn down. -/
theorem post_admitEnvironment_answers (hC : rt.canon.Total) {w₀ : World Λ} {episodeId : String}
    {authority : AuthorityDecision} {env : Environment}
    (hnone : w₀.materializationIdempotency intent.idempotencyKey = none)
    (hid : episodeId ≠ "") (henv : env.environmentId ≠ "")
    (htaken : ∀ receipt : Receipt, receipt.idempotencyKey = some intent.idempotencyKey →
      receipt.intendedEffects = [] → receipt.costs = [] →
        ∃ L, rt.append w.ledger (w.stamps rt receipt) = .ok L) :
    post (Steady caps) (fun r w' _ => ∃ m, r = .ok m ∧ Answered intent intentDigest w₀ m w')
      (admitEnvironment rt intent intentDigest episodeId authority env) w log := by
  rw [admitEnvironment, post_bind, post_attempt]
  refine (gated_environmentAdmission rt (fun _ => trivial) (fun _ => trivial) env).post
    fun x more (_ : ∀ e ∈ more, Gate e.1) hx => ?_
  rcases x with exc | v
  · obtain ⟨d, hd⟩ := errorDigest_eq hC exc
    rw [post_onOk, post_bind, post_attempt]
    refine kernel_post_bounded.mpr fun _ _ => ?_
    rw [post_onOk, hd, prog_pure_bind]
    exact post_refusal_answers hnone (htaken _ rfl rfl rfl)
  · obtain ⟨d, hd⟩ := digest_of_ensureState (hx v rfl)
    show post _ _ (registerEpisode rt intent intentDigest episodeId authority env v) _ _
    rw [registerEpisode, post_bind, post_modify, post_onOk, post_bind, digest, post_lift, hd,
      Except.mapError, post_onOk]
    refine post_exit_of_taken (fun _ => rfl) (htaken _ rfl rfl rfl) fun w' hepisodes hcache => ?_
    have hst : w'.episodes episodeId =
        some ⟨⟨episodeId, intent.provider, env.environmentId, intent.scenario, .alive⟩, env⟩ := by
      rw [hepisodes]
      exact Function.update_self ..
    refine ⟨_, rfl, ?_, ?_, fun _ _ => ⟨rfl, ⟨_, _, rfl, hst, hid, henv⟩, fun h => by cases h⟩⟩
    · refine ⟨⟨intentDigest, _⟩, ?_, fun _ => rfl, fun h => absurd rfl h⟩
      rw [hcache, if_pos rfl, Function.update_self]
    · intro entry hentry
      rw [hnone] at hentry
      cases hentry

/-- The provider is asked, and answers or fails. -/
theorem post_materializeAdmitted_answers (hC : rt.canon.Total) {w₀ : World Λ} {episodeId : String}
    {authority : AuthorityDecision}
    (hnone : w₀.materializationIdempotency intent.idempotencyKey = none) (hid : episodeId ≠ "")
    (htaken : ∀ receipt : Receipt, receipt.idempotencyKey = some intent.idempotencyKey →
      receipt.intendedEffects = [] → receipt.costs = [] →
        ∃ L, rt.append w.ledger (w.stamps rt receipt) = .ok L) :
    post (Steady caps) (fun r w' _ => ∃ m, r = .ok m ∧ Answered intent intentDigest w₀ m w')
      (materializeAdmitted rt intent intentDigest episodeId authority) w log := by
  rw [materializeAdmitted, post_bind, post_attempt]
  refine kernel_post_bounded.mpr fun reply hreply => ?_
  have hfailed : ∀ (exc : Exc) (log' : Log (kernelSig Λ)), post (Steady caps)
      (fun r w' _ => ∃ m, r = .ok m ∧ Answered intent intentDigest w₀ m w') (do
        let errorDigest ← errorDigest rt exc
        materializationRefusal rt intent intentDigest
          { episodeId, operation := .materialize, standing := .blocked,
            subjectRef := some (providerRef intent.provider),
            capabilityRef := some (operationRef "materialize"),
            authorityRef := intent.authorityRef, authorityEvidenceRef := authority.evidenceRef,
            idempotencyKey := some intent.idempotencyKey, principal := intent.principal,
            errorDigest, reason := some exc.reason }) w log' := by
    intro exc log'
    obtain ⟨d, hd⟩ := errorDigest_eq hC exc
    rw [hd, prog_pure_bind]
    exact post_refusal_answers hnone (htaken _ rfl rfl rfl)
  rcases reply with failure | env
  · cases failure <;> exact hfailed _ _
  · exact post_admitEnvironment_answers hC hnone hid (hreply env rfl) htaken

/-- A failure to canonicalize is a typed refusal of `runtime.GymAct`. -/
theorem boundaryBlocked_of_ensureInput (hpromotes : rt.promotes = true) {v : Value} {e : Exc}
    (h : ensureInput rt v = .error e) : ∃ code, e = .boundaryBlocked code := by
  unfold ensureInput ensureWithin at h
  rw [hpromotes] at h
  split at h
  · cases h
    exact ⟨_, rfl⟩
  · split at h
    · cases h
      exact ⟨_, rfl⟩
    · cases h

/-- `materialize` returns. -/
theorem post_materialize_answers (hC : rt.canon.Total) (hpromotes : rt.promotes = true)
    (huuid : ∀ n, rt.uuid4 n ≠ "")
    (hconfig : (Value.dict intent.config).isCanonical = true)
    (hdigest : rt.canon.digest intent.modelDump = .ok intentDigest)
    (htakes : (∀ entry, w.materializationIdempotency intent.idempotencyKey = some entry →
      entry.intentDigest ≠ intentDigest) → LedgerTakes rt intent w) :
    post (Steady caps) (fun r w' _ => ∃ m, r = .ok m ∧ Answered intent intentDigest w m w')
      (materialize rt intent) w log := by
  rw [materialize, post_bind, digest, post_lift, hdigest, Except.mapError, post_onOk, post_withLock,
    materializeLocked, post_bind, post_getState, post_onOk]
  cases hcached : w.materializationIdempotency intent.idempotencyKey with
  | some entry =>
    dsimp only
    by_cases hsame : entry.intentDigest = intentDigest
    · rw [if_pos hsame, post_pure]
      refine ⟨entry.result, rfl, ⟨entry, hcached, fun _ => rfl, fun h => absurd hsame h⟩, ?_, ?_⟩
      · intro entry' hentry'
        exact ⟨hentry', rfl⟩
      · intro hnone
        rw [hcached] at hnone
        cases hnone
    · rw [if_neg hsame]
      have htaken : LedgerTakes rt intent w := by
        refine htakes fun entry' hentry' => ?_
        rw [← Option.some.inj (hcached.symm.trans hentry')]
        exact hsame
      refine post_exit_of_taken (fun _ => rfl) (htaken _ _ rfl rfl rfl (.inl rfl))
        fun w' hepisodes hcache => ⟨_, rfl, ?_, ?_, ?_⟩
      · refine ⟨entry, ?_, fun h => absurd h hsame, fun _ => ⟨rfl, rfl⟩⟩
        rw [hcache]
        exact hcached
      · intro entry' hentry'
        rw [hcache]
        exact ⟨hentry', hepisodes⟩
      · intro hnone
        rw [hcached] at hnone
        cases hnone
  | none =>
    have htaken : LedgerTakes rt intent w := by
      refine htakes fun entry hentry => ?_
      rw [hcached] at hentry
      cases hentry
    have htaken' : ∀ receipt : Receipt, receipt.idempotencyKey = some intent.idempotencyKey →
        receipt.intendedEffects = [] → receipt.costs = [] →
          ∃ L, rt.append w.drawn.ledger (w.drawn.stamps rt receipt) = .ok L :=
      fun receipt hkey heffects hcosts => htaken receipt _ hkey heffects hcosts (.inr rfl)
    have hrefuse : ∀ (receipt : Receipt) (log' : Log (kernelSig Λ)),
        receipt.idempotencyKey = some intent.idempotencyKey → receipt.intendedEffects = [] →
          receipt.costs = [] → post (Steady caps)
            (fun r w' _ => ∃ m, r = .ok m ∧ Answered intent intentDigest w m w')
            (materializationRefusal rt intent intentDigest receipt) w.drawn log' :=
      fun receipt _ hkey heffects hcosts =>
        post_refusal_answers hcached (htaken' receipt hkey heffects hcosts)
    dsimp only
    rw [uuid4, post_bind, post_bind, post_getState, post_onOk, post_bind, post_modify, post_onOk,
      post_pure, post_onOk, materializeFresh]
    cases hinput : ensureInput rt
        (.dict [("scenario", .ofOption intent.scenario), ("config", .dict intent.config)]) with
    | error e =>
      obtain ⟨code, rfl⟩ := boundaryBlocked_of_ensureInput hpromotes hinput
      exact hrefuse _ _ rfl rfl rfl
    | ok _ =>
      dsimp only
      rw [post_bind, post_getState, post_onOk]
      cases w.drawn.providers intent.provider with
      | none => exact hrefuse _ _ rfl rfl rfl
      | some provider =>
        dsimp only
        rw [materializeAuthorized, post_bind, post_attempt]
        have hdecided : ∀ (authority : AuthorityDecision) (log' : Log (kernelSig Λ)),
            post (Steady caps) (fun r w' _ => ∃ m, r = .ok m ∧ Answered intent intentDigest w m w')
              (if authority.admitted then
                materializeAdmitted rt intent intentDigest (rt.uuid4 w.supply) authority
              else materializationRefusal rt intent intentDigest
                { episodeId := rt.uuid4 w.supply, operation := .materialize, standing := .refused,
                  subjectRef := some (providerRef intent.provider),
                  capabilityRef := some (operationRef "materialize"),
                  authorityRef := intent.authorityRef,
                  authorityEvidenceRef := authority.evidenceRef,
                  idempotencyKey := some intent.idempotencyKey, principal := intent.principal,
                  reason := some authority.reason }) w.drawn log' := by
          intro authority log'
          split
          · exact post_materializeAdmitted_answers hC hcached (huuid _) htaken'
          · exact hrefuse _ _ rfl rfl rfl
        refine post_authorityDecision
          (fun _ => hdecided { admitted := true, reason := "AUTHORITY_NOT_REQUIRED" } _)
          (fun _ hnot => absurd (hC _ ?_) hnot) fun _ _ reply hreply => ?_
        · simpa [AuthorityRequest.modelDump] using hconfig
        · rcases reply with failure | authority
          · cases failure with
            | timeout => exact hrefuse _ _ rfl rfl rfl
            | raised e => exact absurd rfl (hreply e)
          · exact hdecided authority _

end Materialize

end GymAct
