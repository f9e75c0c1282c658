import GymAct.CrownRuns

/-!
# What the provider reports of itself

The kernel judges an expectation against its own look at the state, and asks the
provider's `verify` as well. Two outsides that answer everything alike but the
provider's reports (`SameButReports`) get one verdict out of `verify` and of an
execution. The digest that `verify` records as the state after is the digest of the
report, and `reconcileUncertain` compares it to the state before.

`verdict_moved_iff` : for two such outsides, what `verify`, `reconcileUncertain` and
`executeVerified` conclude and record is the same exactly when the digests of the
reports are.
-/

namespace GymAct

open Coop Coop.Prog

variable {Λ : Type}

/-! ## Outsides that differ in their reports -/

/-- The call at which a provider reports on its own state. -/
def Call.reports : Call → Bool
  | .verify .. => true
  | _ => false

/-- The calls, with what was reported left out. -/
def blind (log : Calls) : Calls :=
  log.map fun
    | ⟨.verify env expected, _⟩ => ⟨.verify env expected, .error .timeout⟩
    | e => e

@[simp] theorem blind_append (log more : Calls) : blind (log ++ more) = blind log ++ blind more := by
  simp [blind]

@[simp] theorem blind_report (env : Environment) (expected : Payload)
    (reply : (Call.verify env expected).Reply) :
    blind [⟨.verify env expected, reply⟩] = [⟨.verify env expected, .error .timeout⟩] := rfl

/-- Two outsides that answer every call alike, up to the provider's reports. -/
def SameButReports (ω ω' : Oracle (kernelSig Λ)) : Prop :=
  ∀ log log' c, blind log = blind log' → c.reports = false → ω log c = ω' log' c

/-- The digests of the reports among the calls. -/
def reported (rt : Runtime Λ) (calls : Calls) : List String :=
  calls.filterMap fun
    | ⟨.verify .., .ok (_, observed)⟩ => (rt.canon.digest (.dict observed)).toOption
    | _ => none

theorem reported_append (rt : Runtime Λ) (calls more : Calls) :
    reported rt (calls ++ more) = reported rt calls ++ reported rt more := by
  simp [reported]

/-- The digests that the VERIFY receipts of an episode record as the state after. -/
def World.judged (w : World Λ) (episodeId : String) : List (Option String) :=
  ((w.receipts episodeId).filter fun r => r.operation == .verify).map Receipt.postStateDigest

@[simp] theorem World.judged_drawn (w : World Λ) : w.drawn.judged = w.judged := rfl

/-- One digest more for an episode. -/
def addDigest (judged : String → List (Option String)) (episodeId d : String) :
    String → List (Option String) :=
  Function.update judged episodeId (judged episodeId ++ [some d])

theorem addDigest_inj {judged : String → List (Option String)} {episodeId d d' : String} :
    addDigest judged episodeId d = addDigest judged episodeId d' ↔ d = d' := by
  refine ⟨fun h => ?_, fun h => h ▸ rfl⟩
  simpa [addDigest] using congrFun h episodeId

/-- A digest that is recorded again can be read off as well. -/
theorem addDigest_addDigest_inj {judged : String → List (Option String)} {a b d d' : String} :
    addDigest (addDigest judged a d) b d = addDigest (addDigest judged a d') b d' ↔ d = d' := by
  refine ⟨fun h => ?_, fun h => h ▸ rfl⟩
  have hlast := congrFun h b
  simp only [addDigest, Function.update_self] at hlast
  obtain ⟨-, hd⟩ := List.append_inj' hlast rfl
  simpa using hd

/-- A VERIFY receipt is added to those of its episode. -/
theorem World.judged_recorded (w : World Λ) (L : Λ) {receipt : Receipt} {d : String}
    (h : receipt.operation = .verify) (hd : receipt.postStateDigest = some d) :
    (w.recorded L receipt).judged = addDigest w.judged receipt.episodeId d := by
  ext1 episodeId
  by_cases he : episodeId = receipt.episodeId
  · subst he
    simp [judged, World.recorded, addDigest, h, hd]
  · simp [judged, World.recorded, addDigest, he]

/-- Another receipt leaves the digests alone. -/
theorem World.judged_recorded_of_ne (w : World Λ) (L : Λ) {receipt : Receipt}
    (h : receipt.operation ≠ .verify) : (w.recorded L receipt).judged = w.judged := by
  ext1 episodeId
  by_cases he : episodeId = receipt.episodeId
  · subst he
    simp [judged, World.recorded, h]
  · simp [judged, World.recorded, he]

/-- A program run from a world, and what it returns. -/
def Returns {α : Type} (ω : Oracle (kernelSig Λ)) (p : M Λ α) (w : World Λ) (log : Calls)
    (r : α × World Λ × Calls) : Prop :=
  exec ω p w log = (.ok r.1, r.2)

theorem Returns.unique {α : Type} {ω : Oracle (kernelSig Λ)} {p : M Λ α} {w : World Λ} {log : Calls}
    {r r' : α × World Λ × Calls} (h : Returns ω p w log r) (h' : Returns ω p w log r') : r = r' := by
  obtain ⟨hvalue, hrest⟩ := Prod.mk.inj (h.symm.trans h')
  exact Prod.ext (Except.ok.inj hvalue) hrest

variable {rt : Runtime Λ} {ω ω' : Oracle (kernelSig Λ)} {w : World Λ} {log : Calls}

/-! ## One run -/

/-- What a call of `verify` did that returned : the provider reported, the kernel looked
and judged what it saw, and recorded the digest of the report. -/
structure Judges (rt : Runtime Λ) (ω : Oracle (kernelSig Λ)) (w : World Λ) (log : Calls)
    (episodeId : String) (expected : Payload) (r : VerificationResult × World Λ × Calls)
    (st : EpisodeState) (report : Bool × Payload) (observation : Observation) : Prop where
  episode : w.episodes episodeId = some st
  calls : r.2.2 = log ++ [⟨.verify st.environment expected, .ok report⟩,
    ⟨.observe st.environment,
      ω (log ++ [⟨.verify st.environment expected, .ok report⟩]) (.observe st.environment)⟩]
  looked : look rt st (ω (log ++ [⟨.verify st.environment expected, .ok report⟩])
    (.observe st.environment)) = .ok observation
  passed : r.1.passed = (rt.judge expected observation.state).1
  digest : rt.canon.digest (.dict report.2) = .ok r.1.stateDigest
  judged : r.2.1.judged = addDigest w.judged episodeId r.1.stateDigest

theorem post_verifyRest_judged {A : (c : Call) → c.Reply → Prop} {episodeId : String}
    {expected : Payload} {st : EpisodeState} {providerPassed : Bool} {observed : Payload}
    {observation : Observation} {stateDigest : String} :
    post (S := kernelSig Λ) A (fun r w' log' => ∀ v, r = .ok v → log' = log ∧
        v.passed = (rt.judge expected observation.state).1 ∧ v.stateDigest = stateDigest ∧
        w'.judged = addDigest w.judged episodeId stateDigest)
      (verifyRest rt episodeId expected st providerPassed observed observation stateDigest) w log := by
  simp only [verifyRest, uuid4, post_bind, post_getState, post_onOk, post_modify, post_pure,
    post_recordNew, post_onOk_error]
  refine ⟨fun e _ v h => (by cases h), fun L _ v h => ?_⟩
  cases h
  exact ⟨trivial, rfl, rfl, World.judged_recorded _ L rfl rfl⟩

theorem judges_of_returns {episodeId : String} {expected : Payload}
    {r : VerificationResult × World Λ × Calls}
    (h : Returns ω (verify rt episodeId expected) w log r) :
    ∃ st report observation, Judges rt ω w log episodeId expected r st report observation := by
  have hrun : post (S := kernelSig Λ) (fun _ _ => True) (fun v? w' log' => ∀ v, v? = .ok v →
      ∃ st report reply observation, w.episodes episodeId = some st ∧
        log' = log ++ [⟨.verify st.environment expected, .ok report⟩,
          ⟨.observe st.environment, reply⟩] ∧
        look rt st reply = .ok observation ∧ v.passed = (rt.judge expected observation.state).1 ∧
        rt.canon.digest (.dict report.2) = .ok v.stateDigest ∧
        w'.judged = addDigest w.judged episodeId v.stateDigest)
      (verify rt episodeId expected) w log := by
    refine post_verify (fun e calls _ v h => by cases h)
      fun st providerPassed observed reply observation stateDigest hst hlook hd =>
        post_mono (fun r w' log' hr v hv => ?_) _ post_verifyRest_judged
    obtain ⟨rfl, hpassed, rfl, hjudged⟩ := hr v hv
    exact ⟨st, (providerPassed, observed), reply, observation, hst, rfl, hlook, hpassed, hd, hjudged⟩
  have hdone := exec_of_post (ω := ω) (fun _ _ => trivial) _ hrun
  rw [h] at hdone
  obtain ⟨st, report, reply, observation, hst, hlog, hlook, hpassed, hd, hjudged⟩ := hdone _ rfl
  have hcalls : (exec ω (verify rt episodeId expected) w log).2.2 = r.2.2 := by rw [h]
  have hreply := exec_answers ω _ [⟨.verify st.environment expected, .ok report⟩]
    (hcalls.trans hlog)
  obtain rfl : reply = ω (log ++ [⟨.verify st.environment expected, .ok report⟩])
      (.observe st.environment) := by simpa using hreply
  exact ⟨st, report, observation, hst, hlog, hlook, hpassed, hd, hjudged⟩

/-- Recording a receipt : it is stamped, and calls nobody. -/
theorem recordNew_of_returns {receipt : Receipt} {r : Receipt × World Λ × Calls}
    (h : Returns ω (recordNew rt receipt) w log r) :
    ∃ L, r = (w.stamps rt receipt, w.drawn.recorded L (w.stamps rt receipt), log) := by
  have hrun : post (S := kernelSig Λ) (fun _ _ => True) (fun r? w' log' => ∀ r, r? = .ok r →
      ∃ L, (r, w', log') = (w.stamps rt receipt, w.drawn.recorded L (w.stamps rt receipt), log))
      (recordNew rt receipt) w log := by
    rw [post_recordNew]
    refine ⟨fun e _ r h => (by cases h), fun L _ r h => ?_⟩
    cases h
    exact ⟨L, rfl⟩
  have hdone := exec_of_post (ω := ω) (fun _ _ => trivial) _ hrun
  rw [h] at hdone
  exact hdone _ rfl

/-- What a reconciliation that returned made of its call of `verify`. -/
theorem reconcileUncertain_of_returns {transition : VerifiedTransition} {expected : Payload}
    {r : ReconciledTransition × World Λ × Calls}
    (h : Returns ω (reconcileUncertain rt transition expected) w log r) :
    ∃ v, Returns ω (verify rt transition.actuation.receipt.episodeId expected) w log v ∧
      r.1.reconciliation = reconciliationOf transition.actuation.receipt v.1 ∧
      r.2.1.judged =
        addDigest v.2.1.judged transition.actuation.receipt.episodeId v.1.stateDigest ∧
      r.2.2 = v.2.2 := by
  unfold Returns reconcileUncertain at h
  split at h
  · cases congrArg Prod.fst h
  obtain ⟨v, w₁, log₁, hv, hrest⟩ := exec_bind_ok h
  obtain ⟨receipt, w₂, log₂, hreceipt, hpure⟩ := exec_bind_ok hrest
  obtain ⟨L, hL⟩ := recordNew_of_returns (r := (receipt, w₂, log₂)) hreceipt
  cases hL
  obtain ⟨r, w', log'⟩ := r
  cases hpure
  exact ⟨(v, w₁, _), hv, rfl, World.judged_recorded _ L rfl rfl, rfl⟩

/-- What an execution that returned made of its call of `act` : a result that is not accepted
stands as it is, an accepted one is verified. -/
theorem executeVerified_of_returns {act : ActuationIntent → M Λ ActuationResult}
    {intent : ActuationIntent} {expected : Payload} {r : VerifiedTransition × World Λ × Calls}
    (h : Returns ω (executeVerified rt act intent expected) w log r) :
    ∃ a, Returns ω (act intent) w log a ∧
      (a.1.accepted = false ∧ r.2.1.judged = a.2.1.judged ∧ r.2.2 = a.2.2 ∧ r.1.standing =
          (if possibleUnacknowledgedEffect a.1 then .uncertain else a.1.standing) ∨
        a.1.accepted = true ∧ ∃ v, Returns ω (verify rt intent.episodeId expected) a.2.1 a.2.2 v ∧
          r.1.standing = (if v.1.passed then .alive else .refused) ∧
          r.2.1.judged = addDigest v.2.1.judged a.1.receipt.episodeId v.1.stateDigest ∧
          r.2.2 = v.2.2) := by
  rw [Returns, executeVerified_eq] at h
  obtain ⟨a, w₁, log₁, ha, hrest⟩ := exec_bind_ok h
  obtain ⟨r, w', log'⟩ := r
  refine ⟨(a, w₁, log₁), ha, ?_⟩
  unfold afterAct at hrest
  split at hrest
  case isTrue hrefused =>
    refine Or.inl ⟨hrefused, ?_⟩
    split at hrest
    case isTrue hp =>
      obtain ⟨receipt, w₂, log₂, hreceipt, hpure⟩ := exec_bind_ok hrest
      obtain ⟨L, hL⟩ := recordNew_of_returns (r := (receipt, w₂, log₂)) hreceipt
      cases hL
      cases hpure
      exact ⟨World.judged_recorded_of_ne _ L (by simp [World.stamps, uncertainReceipt, Receipt.stamped]),
        rfl, by simp [hp]⟩
    case isFalse hp =>
      cases hrest
      exact ⟨rfl, rfl, by simp [hp]⟩
  case isFalse haccepted =>
    obtain ⟨v, w₂, log₂, hv, hrest⟩ := exec_bind_ok hrest
    obtain ⟨receipt, w₃, log₃, hreceipt, hpure⟩ := exec_bind_ok hrest
    obtain ⟨L, hL⟩ := recordNew_of_returns (r := (receipt, w₃, log₃)) hreceipt
    cases hL
    cases hpure
    exact Or.inr ⟨eq_true_of_ne_false haccepted, (v, w₂, _), hv, rfl,
      World.judged_recorded _ L rfl rfl, rfl⟩

/-! ## Two runs -/

/-- Two outsides that differ in their reports : `verify` judges alike, and the reports have
one digest exactly when the two results carry one. -/
theorem Judges.agree {episodeId : String} {expected : Payload}
    {r r' : VerificationResult × World Λ × Calls} {st st' : EpisodeState}
    {report report' : Bool × Payload} {observation observation' : Observation}
    (h : SameButReports ω ω')
    (hj : Judges rt ω w log episodeId expected r st report observation)
    (hj' : Judges rt ω' w log episodeId expected r' st' report' observation') :
    r.1.passed = r'.1.passed ∧
      (r.1.stateDigest = r'.1.stateDigest ↔ reported rt r.2.2 = reported rt r'.2.2) := by
  obtain rfl : st = st' := by simpa using hj.episode.symm.trans hj'.episode
  have hreply := h (log ++ [⟨.verify st.environment expected, .ok report⟩])
    (log ++ [⟨.verify st.environment expected, .ok report'⟩]) (.observe st.environment) (by simp) rfl
  have hlook := hj.looked
  rw [hreply, hj'.looked] at hlook
  obtain rfl : observation' = observation := by simpa using hlook
  refine ⟨hj.passed.trans hj'.passed.symm, ?_⟩
  rw [hj.calls, hj'.calls, reported_append, reported_append, List.append_cancel_left_eq]
  simp [reported, hj.digest, hj'.digest, Except.toOption]

/-- `act` asks for no report. -/
theorem act_sameButReports (hC : rt.canon.Total) (h : SameButReports ω ω')
    (intent : ActuationIntent) : exec ω (act rt intent) w log = exec ω' (act rt intent) w log := by
  have hkeeps := (indexed_lockedLaw (A := fun _ _ => True) (P := fun c => c.reports = false)
    (I := fun _ calls => ∃ more, calls = log ++ more ∧ ∀ e ∈ more, e.1.reports = false) rt
    (fun _ calls c r hc ⟨more, hcalls, hmore⟩ => ⟨more ++ [⟨c, r⟩], by rw [hcalls, List.append_assoc],
      by simpa [or_imp, forall_and] using ⟨hmore, hc⟩⟩) (.episode intent.episodeId)).act
    hC (fun c hc => by cases c <;> first | rfl | cases hc) (fun _ _ _ => rfl)
    (fun _ => Keeps.modify fun _ _ h => h) fun _ _ => trivial
  obtain ⟨more, hmore, hall⟩ := exec_of_post (ω := ω) (fun _ _ => trivial) _
    (hkeeps w log ⟨[], by simp⟩)
  refine exec_congr (P := fun c : Call => c.reports = false) (fun log c => h log log c rfl) _
    fun more' hmore' => ?_
  obtain rfl := List.append_cancel_left (hmore.symm.trans hmore')
  exact hall

/-- A disposition and its standing come from the judgement and the digest of the report. -/
theorem reconciliationOf_congr (source : Receipt) {v v' : VerificationResult}
    (hpassed : v.passed = v'.passed) (hd : v.stateDigest = v'.stateDigest) :
    (reconciliationOf source v).disposition = (reconciliationOf source v').disposition ∧
      (reconciliationOf source v).standing = (reconciliationOf source v').standing := by
  unfold reconciliationOf
  rw [hpassed, hd]
  split
  · exact ⟨rfl, rfl⟩
  split <;> exact ⟨rfl, rfl⟩

/-- A retry is admitted on the disposition. -/
theorem admitRetry_congr (action : ActionDefinition) {x y : ReconciliationResult}
    (h : x.disposition = y.disposition) :
    (admitRetry action x).retryAdmitted = (admitRetry action y).retryAdmitted := by
  simp only [admitRetry, h]
  split
  · rfl
  split <;> rfl

/-- Two outsides that differ in their reports alone : `verify` passes under both or under
neither, and an execution stands alike. What is recorded as the state after, the disposition
of a reconciliation and the retries it admits are the same exactly when the reports of the
two runs have the same digests. -/
theorem verdict_moved_iff (rt : Runtime Λ) (hC : rt.canon.Total) (cls : RuntimeClass)
    (ω ω' : Oracle (kernelSig Λ)) (h : SameButReports ω ω') (w : World Λ) (log : Calls)
    (expected : Payload) :
    (∀ episodeId r r', Returns ω (verify rt episodeId expected) w log r →
      Returns ω' (verify rt episodeId expected) w log r' →
      r.1.passed = r'.1.passed ∧
        (r.2.1.judged = r'.2.1.judged ↔ reported rt r.2.2 = reported rt r'.2.2)) ∧
    (∀ transition r r', Returns ω (reconcileUncertain rt transition expected) w log r →
      Returns ω' (reconcileUncertain rt transition expected) w log r' →
      (r.1.reconciliation.disposition = r'.1.reconciliation.disposition ∧
          r.1.reconciliation.standing = r'.1.reconciliation.standing ∧
          (∀ action, (admitRetry action r.1.reconciliation).retryAdmitted =
            (admitRetry action r'.1.reconciliation).retryAdmitted) ∧
          r.2.1.judged = r'.2.1.judged ↔
        reported rt r.2.2 = reported rt r'.2.2)) ∧
    ∀ intent r r', Returns ω (executeVerified rt (brokerAct rt cls) intent expected) w log r →
      Returns ω' (executeVerified rt (brokerAct rt cls) intent expected) w log r' →
      r.1.standing = r'.1.standing ∧
        (r.2.1.judged = r'.2.1.judged ↔ reported rt r.2.2 = reported rt r'.2.2) := by
  refine ⟨fun episodeId r r' hr hr' => ?_, fun transition r r' hr hr' => ?_,
    fun intent r r' hr hr' => ?_⟩
  · obtain ⟨_, _, _, hj⟩ := judges_of_returns hr
    obtain ⟨_, _, _, hj'⟩ := judges_of_returns hr'
    obtain ⟨hpassed, hdigests⟩ := Judges.agree h hj hj'
    rw [hj.judged, hj'.judged, addDigest_inj]
    exact ⟨hpassed, hdigests⟩
  · obtain ⟨v, hv, hreconciled, hjudged, hcalls⟩ := reconcileUncertain_of_returns hr
    obtain ⟨v', hv', hreconciled', hjudged', hcalls'⟩ := reconcileUncertain_of_returns hr'
    obtain ⟨_, _, _, hj⟩ := judges_of_returns hv
    obtain ⟨_, _, _, hj'⟩ := judges_of_returns hv'
    obtain ⟨hpassed, hdigests⟩ := Judges.agree h hj hj'
    rw [hcalls, hcalls', ← hdigests, hjudged, hjudged', hj.judged, hj'.judged,
      addDigest_addDigest_inj, hreconciled, hreconciled']
    refine ⟨fun hall => hall.2.2.2, fun hd => ?_⟩
    obtain ⟨hdisposition, hstanding⟩ :=
      reconciliationOf_congr transition.actuation.receipt hpassed hd
    exact ⟨hdisposition, hstanding, fun action => admitRetry_congr action hdisposition, hd⟩
  · rw [brokerAct_eq] at hr hr'
    obtain ⟨a, ha, hrest⟩ := executeVerified_of_returns hr
    obtain ⟨a', ha', hrest'⟩ := executeVerified_of_returns hr'
    -- the two runs part after `act`
    obtain rfl : a = a' := by
      rw [Returns, act_sameButReports hC h] at ha
      exact Returns.unique ha ha'
    rcases hrest with ⟨hrefused, hjudged, hcalls, hstanding⟩ |
      ⟨haccepted, v, hv, hstanding, hjudged, hcalls⟩ <;>
    rcases hrest' with ⟨hrefused', hjudged', hcalls', hstanding'⟩ |
      ⟨haccepted', v', hv', hstanding', hjudged', hcalls'⟩
    · rw [hstanding, hstanding', hjudged, hjudged', hcalls, hcalls']
      simp
    · simp [hrefused] at haccepted'
    · simp [haccepted] at hrefused'
    · obtain ⟨_, _, _, hj⟩ := judges_of_returns hv
      obtain ⟨_, _, _, hj'⟩ := judges_of_returns hv'
      obtain ⟨hpassed, hdigests⟩ := Judges.agree h hj hj'
      rw [hcalls, hcalls', ← hdigests, hstanding, hstanding', hpassed, hjudged, hjudged', hj.judged,
        hj'.judged, addDigest_addDigest_inj]
      exact ⟨rfl, Iff.rfl⟩

/-! ## Runs to look at -/

/-- An outside whose environments are in the state `x = 1` once they were acted on, which is
not acknowledged, and report `report`. -/
def lostOutside (report : Payload) (log : KernelLog) : (c : Call) → c.Reply
  | .observe _ => .ok (if log.any (fun e => e.1.isAct) then [("x", .int 1)] else [])
  | .actuate .. => .error .timeout
  | .verify .. => .ok (true, report)
  | c => sampleOutside log c

theorem isAct_blind (log : Calls) :
    (blind log).map (fun e => e.1.isAct) = log.map fun e => e.1.isAct := by
  rw [blind, List.map_map]
  refine List.map_congr_left fun e _ => ?_
  obtain ⟨c, reply⟩ := e
  cases c <;> rfl

theorem lostOutside_sameButReports (report report' : Payload) :
    SameButReports (lostOutside report) (lostOutside report') := by
  intro log log' c hblind hc
  have hacts : log.map (fun e => e.1.isAct) = log'.map fun e => e.1.isAct := by
    rw [← isAct_blind log, ← isAct_blind log', hblind]
  have hlength : log.length = log'.length := by simpa using congrArg List.length hacts
  have hany : log.any (fun e => e.1.isAct) = log'.any fun e => e.1.isAct := by
    simpa [List.any_map, Function.comp_def] using congrArg (fun flags => flags.any id) hacts
  cases c with
  | verify env expected => cases hc
  | observe env => simp only [lostOutside, hany]
  | materialize site provider scenario config => simp only [lostOutside, sampleOutside, hlength]
  | authorize request => rfl
  | capabilities env => rfl
  | actuate site env capability payload => rfl
  | checkpoint env => rfl
  | restore site env saved => rfl
  | teardown site env => rfl

/-- An action that may be repeated. -/
def retryableAction : ActionDefinition :=
  { sampleAction with idempotency := .idempotent, conditional := by decide }

/-- An execution on episode `a` that expects `x = 2`, and its reconciliation. -/
def lostExecution : M MemoryReceiptLedger ReconciledTransition := do
  let transition ← executeVerified judgingRuntime (brokerAct judgingRuntime .production)
    (sampleAct "a" "k") [("x", .int 2)]
  reconcileUncertain judgingRuntime transition [("x", .int 2)]

/-- Nothing was to be seen before the action and `x = 1` is after it. The provider that
reports the state before it gets a reconciliation without effect, and the retry of an
idempotent action; the one that reports what is there does not. -/
theorem report_moves_verdict :
    let concluded report := (exec (lostOutside report) lostExecution twoEpisodesWorld []).1.map
      fun r => (r.reconciliation.disposition,
        (admitRetry retryableAction r.reconciliation).retryAdmitted,
        r.receipt.postStateDigest)
    SameButReports (lostOutside []) (lostOutside [("x", .int 1)]) ∧
      concluded [] = .ok (.noEffect, true,
        (judgingRuntime.canon.digest (.dict [])).toOption) ∧
      concluded [("x", .int 1)] = .ok (.partialEffect, false,
        (judgingRuntime.canon.digest (.dict [("x", .int 1)])).toOption) := by
  intro concluded
  exact ⟨lostOutside_sameButReports _ _, by decide +kernel, by decide +kernel⟩

/-- What a run that returned ended with. -/
theorem exists_returns {α : Type} {ω : Oracle (kernelSig Λ)} {p : M Λ α} {w : World Λ} {l : Calls}
    (h : (exec ω p w l).1.toOption.isSome = true) : ∃ a, Returns ω p w l (a, (exec ω p w l).2) := by
  rcases hrun : exec ω p w l with ⟨e | a, rest⟩
  · rw [hrun] at h
    cases h
  · exact ⟨a, hrun⟩

/-- An execution on episode `a` that was seen to leave an empty state. -/
def lostTransition : VerifiedTransition :=
  let receipt : Receipt :=
    { episodeId := "a", operation := .act, standing := .blocked,
      preStateDigest := (judgingRuntime.canon.digest (.dict [])).toOption,
      reason := some "ACTUATION_TIMEOUT" }
  { standing := .uncertain, actuation := { accepted := false, standing := .blocked, receipt },
    receipt := uncertainReceipt receipt }

/-- One state, reported in two orders. -/
def reportOrders : Payload × Payload :=
  ([("x", .int 1), ("y", .int 2)], [("y", .int 2), ("x", .int 1)])

theorem verdict_moved_iff_sample :
    let reconciles := reconcileUncertain judgingRuntime lostTransition [("x", .int 2)]
    ∃ r r', Returns (lostOutside reportOrders.1) reconciles twoEpisodesWorld [] r ∧
      Returns (lostOutside reportOrders.2) reconciles twoEpisodesWorld [] r' ∧
      r.1.reconciliation.disposition = r'.1.reconciliation.disposition ∧
      r.2.1.judged = r'.2.1.judged := by
  intro reconciles
  obtain ⟨a, ha⟩ := exists_returns (ω := lostOutside reportOrders.1) (p := reconciles)
    (w := twoEpisodesWorld) (l := []) (by decide +kernel)
  obtain ⟨b, hb⟩ := exists_returns (ω := lostOutside reportOrders.2) (p := reconciles)
    (w := twoEpisodesWorld) (l := []) (by decide +kernel)
  have hdigests :
      reported judgingRuntime (exec (lostOutside reportOrders.1) reconciles twoEpisodesWorld []).2.2 =
        reported judgingRuntime
          (exec (lostOutside reportOrders.2) reconciles twoEpisodesWorld []).2.2 := by
    decide +kernel
  obtain ⟨-, hreconciled, -⟩ := verdict_moved_iff judgingRuntime Canon.reference_total .production
    (lostOutside reportOrders.1) (lostOutside reportOrders.2) (lostOutside_sameButReports _ _)
    twoEpisodesWorld [] [("x", .int 2)]
  obtain ⟨hdisposition, -, -, hjudged⟩ := (hreconciled lostTransition _ _ ha hb).mpr hdigests
  exact ⟨_, _, ha, hb, hdisposition, hjudged⟩

end GymAct
