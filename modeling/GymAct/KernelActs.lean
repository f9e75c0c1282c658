import GymAct.KernelRuns
import GymAct.KernelTasks

/-!
# Concurrent actuations

`act_once` : in any interleaving an environment is actuated at most once for each
(episode, key), a later call with an equal intent returns the very result of the first
completed one unless the episode was torn down in the meantime, and a later call with
another intent does not actuate and is refused. `act_after_teardown` is a run where a
later call with an equal intent raises.

The episode's lock protects the cache entries of the episode : while it is free, a key
without an entry was never actuated.
-/

namespace GymAct

open Coop Coop.Prog Coop.Discipline

variable {Λ : Type} (rt : Runtime Λ) (ops : ℕ → Op)

/-! ## What a history tells -/

/-- `act` calls the environment under a key. -/
def isActuation (key : String × String) : KernelEvent Λ → Bool
  | .call _ (.actuate (.act episodeId k) _ _ _) => (episodeId, k) == key
  | _ => false

/-- How often `act` actuated an environment under a key. -/
def actsOn (key : String × String) (history : List (KernelEvent Λ)) : ℕ :=
  history.countP (isActuation key)

/-- The intent and the result of an `act` that returns. -/
def completion (key : String × String) :
    KernelEvent Λ → Option (ActuationIntent × ActuationResult)
  | .finish t (.ok (.acted result)) =>
    match ops t with
    | .act intent => if actKey intent = key then some (intent, result) else none
    | _ => none
  | _ => none

/-- The first completed `act` under a key. -/
def completed (key : String × String) (history : List (KernelEvent Λ)) :
    Option (ActuationIntent × ActuationResult) :=
  history.findSome? (completion ops key)

/-- Task `t` did not call an environment to act. -/
def Unactuated (t : ℕ) (history : List (KernelEvent Λ)) : Prop :=
  ∀ site env capability payload, .call t (.actuate site env capability payload) ∉ history

/-- Equal intents : the canonical bytes the kernel compares digests of. -/
def EqualIntents (a b : ActuationIntent) : Prop :=
  rt.canon.canonicalBytes a.modelDump = rt.canon.canonicalBytes b.modelDump

/-- What an `act` owes that finishes after the first one of its key. -/
def LaterAct (before : List (KernelEvent Λ)) (t : ℕ) (r : Except Exc Outcome) : Prop :=
  ∀ intent first result, ops t = .act intent →
    completed ops (actKey intent) before = some (first, result) →
    (EqualIntents rt intent first → r = .ok (.acted result) ∨
      r = .error (.keyError ("unknown episode: " ++ intent.episodeId)) ∧
        TornDown intent.episodeId before) ∧
    (¬ EqualIntents rt intent first → Unactuated t before ∧
      ∀ other, r = .ok (.acted other) → other.standing = .refused)

section Histories

variable {ops} {key : String × String} {history : List (KernelEvent Λ)} {e : KernelEvent Λ}

theorem actsOn_snoc (history : List (KernelEvent Λ)) (e : KernelEvent Λ) :
    actsOn key (history ++ [e]) = actsOn key history + if isActuation key e then 1 else 0 := by
  simp [actsOn, List.countP_append, List.countP_cons]

theorem actsOn_quiet (h : ∀ key, isActuation key e = false) (key : String × String) :
    actsOn key (history ++ [e]) = actsOn key history := by
  simp [actsOn_snoc, h key]

theorem completed_snoc (history : List (KernelEvent Λ)) (e : KernelEvent Λ) :
    completed ops key (history ++ [e]) = (completed ops key history).or (completion ops key e) := by
  simp [completed, List.findSome?_append]

theorem completed_quiet (h : completion ops key e = none ∨ completed ops key history ≠ none) :
    completed ops key (history ++ [e]) = completed ops key history := by
  rw [completed_snoc]
  cases hc : completed ops key history with
  | none => simpa using h.resolve_right (by simp [hc])
  | some x => rfl

/-- Only an `act` completes, and only its own key. -/
theorem completion_eq_some {x : ActuationIntent × ActuationResult}
    (h : completion ops key e = some x) :
    ∃ t, e = .finish t (.ok (.acted x.2)) ∧ ops t = .act x.1 ∧ actKey x.1 = key := by
  unfold completion at h
  split at h
  · split at h
    case h_1 intent ho =>
      split at h
      · cases h
        exact ⟨_, rfl, ho, ‹_›⟩
      · cases h
    · cases h
  · cases h

end Histories

/-! ## The discipline -/

/-- The episode is registered, or its environment was torn down. -/
def Known (episodeId : String) (s : KernelStore Λ) : Prop :=
  s.state.episodes episodeId ≠ none ∨ TornDown episodeId s.history

/-- At every suspension. -/
structure ActInv (s : KernelStore Λ) : Prop where
  once : ∀ key, actsOn key s.history ≤ 1
  uncached : ∀ key, s.state.actuationIdempotency key = none → completed ops key s.history = none
  cached : ∀ key entry, s.state.actuationIdempotency key = some entry →
    ∃ intent, completed ops key s.history = some (intent, entry.result) ∧
      rt.canon.digest intent.modelDump = .ok entry.intentDigest
  known : ∀ key x, completed ops key s.history = some x → Known key.1 s
  later : AtFinish (LaterAct rt ops) s.history

/-- What the lock of an episode protects. -/
def ActOwn : LockId → KernelStore Λ → Prop
  | .materialization, _ => True
  | .episode episodeId, s => ∀ k, s.state.actuationIdempotency (episodeId, k) = none →
      actsOn (episodeId, k) s.history = 0

/-- What the others may do. -/
structure ActRely (O : Set LockId) (s s' : KernelStore Λ) : Prop where
  cache : ∀ episodeId, .episode episodeId ∈ O → ∀ k,
    s'.state.actuationIdempotency (episodeId, k) = s.state.actuationIdempotency (episodeId, k)
  acts : ∀ episodeId, .episode episodeId ∈ O → ∀ k,
    actsOn (episodeId, k) s'.history = actsOn (episodeId, k) s.history
  known : ∀ episodeId, Known episodeId s → Known episodeId s'

/-- The discipline of `act`. Nothing is promised after a ledger refused a receipt. -/
def actDiscipline : Discipline (kernelSig Λ) Outcome where
  inv := ActInv rt ops
  own := ActOwn
  rely := ActRely
  admits _ _ _ := True
  fault _ r := ∃ e, r = .error (.ledger e)
  rely_refl _ _ := ⟨fun _ _ _ => rfl, fun _ _ _ => rfl, fun _ h => h⟩
  rely_trans h h' := ⟨fun ep hl k => (h'.cache ep hl k).trans (h.cache ep hl k),
    fun ep hl k => (h'.acts ep hl k).trans (h.acts ep hl k), fun ep hk => h'.known ep (h.known ep hk)⟩
  own_stable := fun {O l s s'} hl h ho => by
    cases l with
    | materialization => trivial
    | episode ep =>
      intro k hk
      rw [h.acts ep hl k]
      exact ho k (by rwa [← h.cache ep hl k])

section Discipline

variable {rt ops} {t : ℕ} {s : KernelStore Λ}

theorem Known.log {episodeId : String} (h : Known episodeId s) (e : KernelEvent Λ) :
    Known episodeId (s.log e) :=
  h.imp id fun h => h.append [e]

/-- An event that neither actuates nor completes a new key. -/
theorem actCalmStep {e : KernelEvent Λ} (hi : ActInv rt ops s)
    (hq : ∀ key, isActuation key e = false)
    (hc : ∀ key, completion ops key e = none ∨ completed ops key s.history ≠ none)
    (hl : ∀ t r, e = .finish t r → LaterAct rt ops s.history t r) :
    (actDiscipline rt ops).CalmStep s (s.log e) := by
  have hcomp : ∀ key, completed ops key (s.history ++ [e]) = completed ops key s.history :=
    fun key => completed_quiet (hc key)
  refine ⟨⟨fun key => ?_, fun key hk => ?_, fun key entry hk => ?_, fun key x hx => ?_,
    hi.later.snoc hl⟩, fun O => ⟨fun _ _ _ => rfl, fun _ _ _ => actsOn_quiet hq _,
      fun _ h => h.log e⟩⟩
  · exact (actsOn_quiet hq key).trans_le (hi.once key)
  · exact (hcomp key).trans (hi.uncached key hk)
  · rw [Store.log_history, hcomp]
    exact hi.cached key entry hk
  · exact (hi.known key x ((hcomp key).symm.trans hx)).log e

theorem actCalmEvent {e : KernelEvent Λ} (hq : ∀ key, isActuation key e = false)
    (hf : ∀ t r, e = .finish t r → ∀ intent, ops t ≠ .act intent) :
    (actDiscipline rt ops).CalmEvent e := by
  intro s hi
  refine actCalmStep hi hq (fun key => Or.inl ?_) fun t r he intent first result ho => ?_
  · cases hc : completion ops key e with
    | none => rfl
    | some x =>
      obtain ⟨t, he, ho, -⟩ := completion_eq_some hc
      exact absurd ho (hf t _ he _)
  · exact absurd ho (hf t r he intent)

/-- A change of the tables that leaves the cache, and what is known of the episodes. -/
theorem actCalmStep_state {w : World Λ} (hi : ActInv rt ops s)
    (hcache : w.actuationIdempotency = s.state.actuationIdempotency)
    (hknown : ∀ ep, Known ep s → Known ep { s with state := w }) :
    (actDiscipline rt ops).CalmStep s { s with state := w } := by
  refine ⟨⟨hi.once, fun key hk => ?_, fun key entry hk => ?_, fun key x hx =>
    hknown _ (hi.known key x hx), hi.later⟩, fun O => ⟨fun _ _ _ => ?_, fun _ _ _ => rfl, hknown⟩⟩
  · exact hi.uncached key (by rwa [hcache] at hk)
  · exact hi.cached key entry (by rwa [hcache] at hk)
  · exact congrFun hcache _

theorem actCalmUpdate {f : World Λ → World Λ}
    (hcache : ∀ w, (f w).actuationIdempotency = w.actuationIdempotency)
    (hreg : ∀ w ep, w.episodes ep ≠ none → (f w).episodes ep ≠ none) :
    (actDiscipline rt ops).CalmUpdate f :=
  fun s hi => actCalmStep_state hi (hcache s.state) fun ep h => h.imp (hreg s.state ep) id

/-! ## Operations other than `act` -/

/-- Calls other than an actuation by `act`. -/
def NotAct : Call → Prop
  | .actuate (.act _ _) _ _ _ => False
  | _ => True

theorem notAct_of_gate {c : Call} (h : Gate c) : NotAct c := by
  cases c <;> simp_all [Gate, NotAct]

theorem notAct_of_otherCall {c : Call} (h : OtherCall c) : NotAct c := by
  cases c with
  | actuate site env capability payload => cases site <;> trivial
  | _ => trivial

theorem isActuation_call {c : Call} (h : NotAct c) (key : String × String) :
    isActuation key (.call t c : KernelEvent Λ) = false := by
  unfold isActuation
  split
  · rename_i heq
    cases heq
    exact absurd h (by simp [NotAct])
  · rfl

theorem actCalmEvent_of_asks {e : KernelEvent Λ} (h : Asks t NotAct e) :
    (actDiscipline rt ops).CalmEvent e := by
  cases e with
  | call t' c =>
    obtain ⟨rfl, hc⟩ := h
    exact actCalmEvent (isActuation_call hc) (by simp)
  | asked | reply => exact actCalmEvent (fun _ => rfl) (by simp)
  | start | grant | finish => exact absurd h (by simp [Asks])

theorem actCalmEvent_of_gate (e : KernelEvent Λ) (h : Asks t Gate e) :
    (actDiscipline rt ops).CalmEvent e :=
  actCalmEvent_of_asks (by
    cases e with
    | asked | call | reply => exact ⟨h.1, notAct_of_gate h.2⟩
    | start | grant | finish => exact absurd h (by simp [Asks]))

variable (rt ops t) in
/-- Whatever leaves actuations alone is calm. -/
theorem actCalmLaw (O : Set LockId) : KernelLaw rt (fun _ _ => True) NotAct (fun _ => True)
    fun _ p => (actDiscipline rt ops).Calm t O (fun _ => True) p :=
  calm_law (fun _ h => (actCalmEvent_of_asks h).inTrue) Stable.true
    (CalmUpdate.inTrue (actCalmUpdate (fun _ => rfl) fun _ _ h => h))
    (fun _ => CalmUpdate.inTrue (actCalmUpdate (fun _ => rfl) fun _ _ h => h))
    fun _ _ _ _ _ _ _ hi _ => ⟨actCalmStep_state hi rfl fun _ h => h, trivial⟩

variable (rt ops t) in
theorem actCalmLockedLaw (l : LockId) :
    LockedLaw rt (fun _ _ => True) NotAct NotAct (fun _ => True)
      (fun _ p => (actDiscipline rt ops).Calm t ∅ (fun _ => True) p) l
      fun _ p => (actDiscipline rt ops).Calm t {l} (fun _ => True) p := by
  refine ⟨actCalmLaw rt ops t ∅, actCalmLaw rt ops t {l}, fun hp => ?_⟩
  refine Calm.withLock (P := fun _ => True) (Set.notMem_empty l)
    (actCalmEvent (fun _ => rfl) (by simp)) (fun _ _ _ => trivial) ?_
  rwa [insert_empty_eq]

/-- A teardown drops the episode only after it tore the environment down. -/
theorem calm_teardownAdmitted (episodeId : String) (authorityRef : Option String)
    (st : EpisodeState) (before : Observation) (authority : AuthorityDecision) :
    (actDiscipline rt ops).Calm t {.episode episodeId} (fun _ => True)
      (teardownAdmitted rt episodeId authorityRef st before authority) := by
  obtain ⟨k, hk, hdone, hfail⟩ :=
    teardownAdmitted_eq rt episodeId authorityRef st before authority
  rw [hk]
  intro Os s₀ s hO h _
  have hK := actCalmLaw rt ops t {.episode episodeId}
  have hs := h.event (actCalmEvent_of_asks (t := t)
    (e := .call t (.teardown (.teardown episodeId) st.environment)) ⟨rfl, trivial⟩)
  refine ⟨hs.mono (Set.empty_subset _), fun s₂ hi hr he r => ?_⟩
  have hp := (hs.resume hO hi hr).event (actCalmEvent_of_asks (t := t)
    (e := .reply t (.teardown (.teardown episodeId) st.environment) r) ⟨rfl, trivial⟩)
  match r with
  | .error failure =>
    obtain ⟨exc, hexc⟩ := hfail failure
    rw [hexc]
    exact (hK.bind (hK.errorDigest _) fun _ => hK.recordNew trivial) _ _ _ (Set.Subset.refl _) hp
      trivial
  | .ok () =>
    rw [hdone]
    refine wp_teardownRest (fun e => ⟨rfl, Set.Subset.refl _, ?_, trivial⟩)
      (fun L id now _ => ⟨rfl, Set.Subset.refl _, ?_, trivial⟩)
      fun L id now _ => ⟨rfl, Set.Subset.refl _, ?_, trivial⟩
    · exact hp.calm (actCalmStep_state hp.inv rfl fun _ h => h)
    · exact hp.calm (actCalmStep_state hp.inv rfl fun _ h => h)
    · refine hp.calm (actCalmStep_state hp.inv rfl fun ep h => ?_)
      -- the reply in the history says that the environment is gone
      by_cases hep : ep = episodeId
      · exact Or.inr (hep ▸ ⟨t, st.environment, by simp⟩)
      · refine h.imp (fun h => ?_) fun h => h
        simpa [World.dropped, World.buried, World.recorded, World.drawn, hep] using h

/-- An operation other than `act` meets the discipline. -/
theorem wp_otherThanAct (ht : ∀ intent, ops t ≠ .act intent) (hi : ActInv rt ops s) :
    (actDiscipline rt ops).wp t ((actDiscipline rt ops).finish t) ((ops t).program rt) ∅ ∅ s
      (s.log (.start t)) := by
  refine Calm.finish ?_ (actCalmEvent (fun _ => rfl) (by simp))
    (fun r => actCalmEvent (fun _ => rfl) fun t' r' h => ?_) hi
  · refine LockedLaw.program (actCalmLockedLaw rt ops t) (fun _ _ => Calm.modify
      (CalmUpdate.inTrue (actCalmUpdate (fun _ => rfl) fun _ _ h => h))) (fun _ _ => Calm.modify
      (CalmUpdate.inTrue (actCalmUpdate (fun _ => rfl) fun _ _ h => h))) (fun id st => Calm.modify
      (CalmUpdate.inTrue (actCalmUpdate (fun _ => rfl) fun w ep h => ?_)))
      calm_teardownAdmitted (fun _ => notAct_of_otherCall) (fun _ _ _ _ => trivial) ht
    by_cases hep : ep = id
    · simp [hep]
    · simpa [hep] using h
  · obtain ⟨rfl, -⟩ := Event.finish.inj h
    exact ht

/-! ## One `act` -/

section Act

variable {intent : ActuationIntent} {intentDigest : String} {st : EpisodeState}
  {s₀ : KernelStore Λ} {Os : Set LockId}

/-- How an `act` leaves the lock and finishes. -/
def ActExits (rt : Runtime Λ) (ops : ℕ → Op) (t : ℕ) (intent : ActuationIntent)
    (r : Except Exc ActuationResult) (O Os : Set LockId) (s₀ s : KernelStore Λ) : Prop :=
  .episode intent.episodeId ∈ O ∧
    (actDiscipline rt ops).finish t (r.map .acted) (O \ {.episode intent.episodeId}) Os s₀ s

/-- A finish that completes no new key. -/
theorem act_finish {r : Except Exc Outcome} {O : Set LockId}
    (hp : (actDiscipline rt ops).Pause Os ∅ s₀ s)
    (hc : ∀ key, completion ops key (.finish t r : KernelEvent Λ) = none ∨
      completed ops key s.history ≠ none)
    (hl : LaterAct rt ops s.history t r) : (actDiscipline rt ops).finish t r O Os s₀ s := by
  refine fun _ => (hp.calm (actCalmStep hp.inv (fun _ => rfl) hc fun t' r' he => ?_)).mono
    (Set.empty_subset O)
  obtain ⟨rfl, rfl⟩ := Event.finish.inj he
  exact hl

theorem act_raises {e : Exc} {O : Set LockId} (hp : (actDiscipline rt ops).Pause Os ∅ s₀ s)
    (hl : LaterAct rt ops s.history t (.error e)) :
    (actDiscipline rt ops).finish t (.error e) O Os s₀ s :=
  act_finish hp (fun _ => Or.inl rfl) hl

/-- Under a key nobody completed nothing is owed. -/
theorem laterAct_of_uncached {r : Except Exc Outcome} (ho : ops t = .act intent)
    (hi : ActInv rt ops s) (hk : s.state.actuationIdempotency (actKey intent) = none) :
    LaterAct rt ops s.history t r := by
  intro intent' first result ho' hcomp
  obtain rfl : intent = intent' := by simpa [ho] using ho'
  rw [hi.uncached _ hk] at hcomp
  cases hcomp

/-- What the holder of the episode's lock knows of a key without an entry. -/
structure Uncached (intent : ActuationIntent) (s : KernelStore Λ) : Prop where
  entry : s.state.actuationIdempotency (actKey intent) = none
  known : Known intent.episodeId s
  others : ∀ k, k ≠ intent.idempotencyKey →
    s.state.actuationIdempotency (intent.episodeId, k) = none →
      actsOn (intent.episodeId, k) s.history = 0

theorem Uncached.event {e : KernelEvent Λ} (h : Uncached intent s) (hq : Asks t Gate e) :
    Uncached intent (s.log e) := by
  have hq' : ∀ key, isActuation key e = false := by
    cases e with
    | call t' c => exact isActuation_call (notAct_of_gate hq.2)
    | asked | reply => exact fun _ => rfl
    | start | grant | finish => exact absurd hq (by simp [Asks])
  exact ⟨h.entry, h.known.log e, fun k hk hn => (actsOn_quiet hq' _).trans (h.others k hk hn)⟩

theorem Uncached.stable {s' : KernelStore Λ} (h : Uncached intent s)
    (hr : ActRely {.episode intent.episodeId} s s') : Uncached intent s' := by
  have hl : LockId.episode intent.episodeId ∈ ({.episode intent.episodeId} : Set LockId) := rfl
  refine ⟨(hr.cache _ hl _).trans h.entry, hr.known _ h.known, fun k hk hn => ?_⟩
  rw [hr.acts _ hl]
  exact h.others k hk (by rwa [← hr.cache _ hl])

/-- An exit that caches : the first completion of the key. -/
theorem act_caches {O : Set LockId} {w : World Λ} {result : ActuationResult}
    (ho : ops t = .act intent) (hd : rt.canon.digest intent.modelDump = .ok intentDigest)
    (hO : LockId.episode intent.episodeId ∈ Os)
    (hp : (actDiscipline rt ops).Pause Os {.episode intent.episodeId} s₀ s)
    (hu : Uncached intent s)
    (hcache : w.actuationIdempotency = Function.update s.state.actuationIdempotency
      (actKey intent) (some ⟨intentDigest, result⟩))
    (hreg : w.episodes = s.state.episodes) :
    (actDiscipline rt ops).finish t (.ok (.acted result)) O Os s₀ { s with state := w } := by
  intro _
  have hi := hp.inv
  have hreg' : ∀ ep, Known ep s → Known ep { s with state := w } :=
    fun ep h => h.imp (fun h => by rwa [hreg]) fun h => h
  have hcompl : ∀ key, completion ops key (.finish t (.ok (.acted result)) : KernelEvent Λ) =
      if actKey intent = key then some (intent, result) else none := by
    intro key
    simp [completion, ho]
  -- a key is new exactly when it is the key of this intent
  have hcomp : ∀ key, completed ops key (s.history ++ [.finish t (.ok (.acted result))]) =
      if actKey intent = key then some (intent, result) else completed ops key s.history := by
    intro key
    rw [completed_snoc, hcompl]
    by_cases hk : actKey intent = key
    · rw [← hk, hi.uncached _ hu.entry]
      simp
    · simp [hk]
  refine ⟨⟨fun key => ?_, fun key hk => ?_, fun key entry hk => ?_, fun key x hx => ?_, ?_⟩,
    fun O' hd' => (actDiscipline rt ops).rely_trans (hp.rely O' hd') ?_, fun l hl hn => ?_⟩
  · exact (actsOn_quiet (fun _ => rfl) key).trans_le (hi.once key)
  · have hk : w.actuationIdempotency key = none := hk
    rw [hcache] at hk
    have hne : actKey intent ≠ key := by
      rintro rfl
      simp at hk
    rw [Store.log_history, hcomp, if_neg hne]
    exact hi.uncached key (by rwa [Function.update_of_ne (Ne.symm hne)] at hk)
  · have hk : w.actuationIdempotency key = some entry := hk
    rw [Store.log_history, hcomp]
    by_cases hne : actKey intent = key
    · subst hne
      obtain rfl : (⟨intentDigest, result⟩ : ActuationRecord) = entry := by simpa [hcache] using hk
      exact ⟨intent, by simp, hd⟩
    · rw [hcache, Function.update_of_ne (Ne.symm hne)] at hk
      simpa [hne] using hi.cached key entry hk
  · rw [Store.log_history, hcomp] at hx
    by_cases hne : actKey intent = key
    · exact hne ▸ (hreg' _ hu.known).log _
    · exact (hreg' _ (hi.known key x (by simpa [hne] using hx))).log _
  · refine hi.later.snoc fun t' r' he => ?_
    obtain ⟨rfl, rfl⟩ := Event.finish.inj he
    exact laterAct_of_uncached ho hi hu.entry
  · refine ⟨fun ep hl k => ?_, fun _ _ _ => actsOn_quiet (fun _ => rfl) _,
      fun ep h => (hreg' ep h).log _⟩
    have hne : ((ep, k) : String × String) ≠ actKey intent := by
      intro h
      have hep : ep = intent.episodeId := congrArg Prod.fst h
      exact Set.disjoint_left.mp hd' hl (hep ▸ hO)
    change w.actuationIdempotency (ep, k) = _
    rw [hcache, Function.update_of_ne hne]
  · cases l with
    | materialization => trivial
    | episode ep =>
      intro k hk
      have hk : w.actuationIdempotency (ep, k) = none := hk
      rw [Store.log_history, actsOn_quiet fun _ => rfl]
      have hne : actKey intent ≠ (ep, k) := by
        intro h
        rw [hcache, ← h, Function.update_self] at hk
        cases hk
      rw [hcache, Function.update_of_ne (Ne.symm hne)] at hk
      by_cases hep : ep = intent.episodeId
      · subst hep
        exact hu.others k (fun h => hne (by rw [h]; rfl)) hk
      · exact hp.own _ hl (by simpa using hep) k hk

/-- An exit with a receipt that is cached. -/
theorem wp_actCaches {receipt : Receipt} {result : Receipt → ActuationResult}
    (ho : ops t = .act intent) (hd : rt.canon.digest intent.modelDump = .ok intentDigest)
    (hres : ∀ r, (result r).receipt = r) (hO : {.episode intent.episodeId} ⊆ Os)
    (hp : (actDiscipline rt ops).Pause Os {.episode intent.episodeId} s₀ s)
    (hu : Uncached intent s) :
    (actDiscipline rt ops).wp t (ActExits rt ops t intent)
      (actuationExit rt intent intentDigest receipt result) {.episode intent.episodeId} Os s₀ s :=
  wp_actuationExit hres (fun e => ⟨rfl, fun hf => absurd ⟨e, rfl⟩ hf⟩)
    fun _ _ _ => ⟨rfl, act_caches ho hd (hO rfl) hp hu rfl rfl⟩

theorem isActuation_act {env : Environment} {capability : Capability} {payload : Payload}
    (key : String × String) :
    isActuation key (.call t (.actuate (.act intent.episodeId intent.idempotencyKey) env capability
      payload) : KernelEvent Λ) = (actKey intent == key) := rfl

/-- The call of the provider : the only one under its key. -/
theorem pause_actuate {env : Environment} {capability : Capability} {payload : Payload}
    (hO : {.episode intent.episodeId} ⊆ Os) (hp : (actDiscipline rt ops).Pause Os ∅ s₀ s)
    (hu : Uncached intent s) :
    (actDiscipline rt ops).Pause Os {.episode intent.episodeId} s₀
      (s.log (.call t (.actuate (.act intent.episodeId intent.idempotencyKey) env capability
        payload))) := by
  have hi := hp.inv
  have hzero : actsOn (actKey intent) s.history = 0 :=
    hp.own (.episode intent.episodeId) (hO rfl) (Set.notMem_empty _) _ hu.entry
  have hacts : ∀ key, actKey intent ≠ key → actsOn key (s.history ++ [.call t (.actuate
      (.act intent.episodeId intent.idempotencyKey) env capability payload)]) =
        actsOn key s.history := by
    intro key hk
    rw [actsOn_snoc, isActuation_act]
    simp [hk]
  have hcomp : ∀ key, completed ops key (s.history ++ [.call t (.actuate
      (.act intent.episodeId intent.idempotencyKey) env capability payload)]) =
        completed ops key s.history :=
    fun key => completed_quiet (Or.inl rfl)
  have hother : ∀ {ep k}, LockId.episode ep ≠ .episode intent.episodeId →
      actKey intent ≠ (ep, k) := fun h he => h (congrArg (fun key => LockId.episode key.1) he.symm)
  refine ⟨⟨fun key => ?_, fun key hk => (hcomp key).trans (hi.uncached key hk),
    fun key entry hk => ?_, fun key x hx => ?_, hi.later.snoc (by simp)⟩,
    fun O' hd => (actDiscipline rt ops).rely_trans (hp.rely O' hd) ?_, fun l hl hn => ?_⟩
  · by_cases hk : actKey intent = key
    · subst hk
      rw [Store.log_history, actsOn_snoc, isActuation_act, hzero]
      simp
    · exact (hacts key hk).trans_le (hi.once key)
  · rw [Store.log_history, hcomp]
    exact hi.cached key entry hk
  · exact (hi.known key x ((hcomp key).symm.trans hx)).log _
  · refine ⟨fun _ _ _ => rfl, fun ep hl k => hacts _ (hother fun h => ?_), fun ep h => h.log _⟩
    exact Set.disjoint_left.mp hd hl (h ▸ hO rfl)
  · cases l with
    | materialization => trivial
    | episode ep =>
      intro k hk
      rw [Store.log_history, hacts _ (hother hn)]
      exact hp.own _ hl (Set.notMem_empty _) k hk

/-- `act` under a key nobody completed. -/
theorem wp_actFresh (hC : rt.canon.Total) (ho : ops t = .act intent)
    (hd : rt.canon.digest intent.modelDump = .ok intentDigest)
    (hO : {.episode intent.episodeId} ⊆ Os) (hp : (actDiscipline rt ops).Pause Os ∅ s₀ s)
    (hu : Uncached intent s) :
    (actDiscipline rt ops).wp t (ActExits rt ops t intent)
      (actFresh rt intent intentDigest st) {.episode intent.episodeId} Os s₀ s := by
  have hevent : ∀ e, Asks t Gate e → (actDiscipline rt ops).CalmEventIn (Uncached intent) e :=
    fun e he s hi hu => ⟨actCalmEvent_of_gate e he s hi, hu.event he⟩
  have hstable : (actDiscipline rt ops).Stable t {.episode intent.episodeId} (Uncached intent) :=
    fun _ _ _ hr _ hu => hu.stable hr
  refine wp_of_leads (Set.empty_subset _) hevent hstable
    (fun q Os s₀ s hO hp hu ht => ?_) (leads_actFresh rt intent intentDigest st) hO hp hu
  cases ht with
  | raise e => exact ⟨rfl, act_raises hp (laterAct_of_uncached ho hp.inv hu.entry)⟩
  | exit hx => exact wp_actCaches ho hd hx.receipt_eq hO (hp.mono (Set.empty_subset _)) hu
  | @proceed before capability authority hadm =>
    obtain ⟨cs, -, hnamed⟩ := hadm.declared
    obtain ⟨k, hk, hlead⟩ := leads_actReceipted (A := fun _ _ => True) rt intent intentDigest st hC
      before authority (capabilityNamed_iri hnamed)
    rw [hk]
    refine ⟨pause_actuate hO hp hu, fun s₂ hi hr _ r => ?_⟩
    have hu₁ : Uncached intent (s.log (.call t (.actuate
        (.act intent.episodeId intent.idempotencyKey) st.environment capability
        intent.payload))) := by
      refine ⟨hu.entry, hu.known.log _, fun k hk hn => ?_⟩
      rw [Store.log_history, actsOn_snoc, isActuation_act, hu.others k hk hn]
      simp [actKey, Ne.symm hk]
    have hu₂ := hu₁.stable hr
    have hreply : (actDiscipline rt ops).CalmEvent (.reply t (.actuate
        (.act intent.episodeId intent.idempotencyKey) st.environment capability
        intent.payload) r) := actCalmEvent (fun _ => rfl) (by simp)
    refine wp_of_leads (Set.Subset.refl _) hevent hstable
      (fun q Os s₀ s hO hp hu ht => ?_) (hlead r) (Set.Subset.refl _)
      ((Pause.refl hi fun l hl hn => absurd hl hn).event hreply)
      ⟨hu₂.entry, hu₂.known.log _, fun k hk hn => ?_⟩
    · cases ht with
      | exit hx => exact wp_actCaches ho hd hx.receipt_eq hO hp hu
    · exact (actsOn_quiet (fun _ => rfl) _).trans (hu₂.others k hk hn)

/-! ### A completed key -/

theorem Unactuated.snoc {history : List (KernelEvent Λ)} (h : Unactuated t history)
    {e : KernelEvent Λ} (he : ∀ site env capability payload,
      e ≠ .call t (.actuate site env capability payload)) : Unactuated t (history ++ [e]) := by
  intro site env capability payload hm
  rcases List.mem_append.mp hm with hm | hm
  · exact h _ _ _ _ hm
  · exact he _ _ _ _ (List.mem_singleton.mp hm).symm

theorem Unactuated.event {history : List (KernelEvent Λ)} (h : Unactuated t history)
    {e : KernelEvent Λ} (he : Asks t Gate e) : Unactuated t (history ++ [e]) :=
  h.snoc fun _ _ _ _ heq => by
    rw [heq] at he
    exact he.2

theorem unactuated_of_fresh {history : List (KernelEvent Λ)} (h : ∀ e ∈ history, e.task ≠ t) :
    Unactuated t history :=
  fun _ _ _ _ hm => h _ hm rfl

theorem Unactuated.elsewhere {s' : KernelStore Λ} (h : Unactuated t s.history)
    (he : Elsewhere t s s') : Unactuated t s'.history := by
  obtain ⟨more, hm, ht⟩ := he
  rw [hm]
  intro site env capability payload hmem
  rcases List.mem_append.mp hmem with hmem | hmem
  · exact h _ _ _ _ hmem
  · exact ht _ hmem rfl

/-- The same key with another intent. -/
theorem laterAct_of_conflict {r : Except Exc Outcome} {entry : ActuationRecord}
    (ho : ops t = .act intent) (hd : rt.canon.digest intent.modelDump = .ok intentDigest)
    (hi : ActInv rt ops s) (hk : s.state.actuationIdempotency (actKey intent) = some entry)
    (hne : entry.intentDigest ≠ intentDigest) (hun : Unactuated t s.history)
    (hr : ∀ other, r = .ok (.acted other) → other.standing = .refused) :
    LaterAct rt ops s.history t r := by
  intro intent' first result ho' hcomp
  obtain rfl : intent = intent' := by simpa [ho] using ho'
  obtain ⟨first', hcomp', hdig⟩ := hi.cached _ entry hk
  obtain ⟨rfl, -⟩ : first' = first ∧ entry.result = result := by simpa [hcomp'] using hcomp
  refine ⟨fun heq => absurd ?_ hne, fun _ => ⟨hun, hr⟩⟩
  rw [Canon.digest_congr heq, hdig] at hd
  exact Except.ok.inj hd

/-- The same key with an equal intent. -/
theorem laterAct_of_hit {entry : ActuationRecord} (hF : rt.canon.CollisionFree)
    (ho : ops t = .act intent) (hd : rt.canon.digest intent.modelDump = .ok entry.intentDigest)
    (hi : ActInv rt ops s) (hk : s.state.actuationIdempotency (actKey intent) = some entry) :
    LaterAct rt ops s.history t (.ok (.acted entry.result)) := by
  intro intent' first result ho' hcomp
  obtain rfl : intent = intent' := by simpa [ho] using ho'
  obtain ⟨first', hcomp', hdig⟩ := hi.cached _ entry hk
  obtain ⟨rfl, rfl⟩ : first' = first ∧ entry.result = result := by simpa [hcomp'] using hcomp
  exact ⟨fun _ => Or.inl rfl, fun hne => absurd (hF.bytes_eq hd hdig) hne⟩

/-- A key with an entry is completed already. -/
theorem completion_of_cached {r : Except Exc Outcome} {entry : ActuationRecord}
    (ho : ops t = .act intent) (hi : ActInv rt ops s)
    (hk : s.state.actuationIdempotency (actKey intent) = some entry) (key : String × String) :
    completion ops key (.finish t r : KernelEvent Λ) = none ∨ completed ops key s.history ≠ none := by
  cases hc : completion ops key (.finish t r : KernelEvent Λ) with
  | none => exact Or.inl rfl
  | some x =>
    obtain ⟨t', he, ho', rfl⟩ := completion_eq_some hc
    obtain ⟨rfl, -⟩ := Event.finish.inj he
    obtain rfl : intent = x.1 := by simpa [ho] using ho'
    obtain ⟨first, hcomp, -⟩ := hi.cached _ entry hk
    exact Or.inr (by simp [hcomp])

theorem wp_actConflict {entry : ActuationRecord} (ho : ops t = .act intent)
    (hd : rt.canon.digest intent.modelDump = .ok intentDigest)
    (hne : entry.intentDigest ≠ intentDigest) (hO : {.episode intent.episodeId} ⊆ Os)
    (hp : (actDiscipline rt ops).Pause Os ∅ s₀ s)
    (hk : s.state.actuationIdempotency (actKey intent) = some entry)
    (hun : Unactuated t s.history) :
    (actDiscipline rt ops).wp t (ActExits rt ops t intent)
      (actConflict rt intent intentDigest st) {.episode intent.episodeId} Os s₀ s := by
  refine wp_of_leads (O := {.episode intent.episodeId})
    (P := fun s : KernelStore Λ => s.state.actuationIdempotency (actKey intent) = some entry ∧
      Unactuated t s.history) (Set.empty_subset _)
    (fun e he s hi h => ⟨actCalmEvent_of_gate e he s hi, h.1, h.2.event he⟩)
    (fun _ _ _ hr he h => ⟨(hr.cache _ rfl _).trans h.1, h.2.elsewhere he⟩)
    (fun q Os s₀ s hO hp h ht => ?_) (leads_actConflict rt intent intentDigest st) hO hp ⟨hk, hun⟩
  obtain ⟨hk, hun⟩ := h
  cases ht with
  | raise e =>
    exact ⟨rfl, act_raises hp (laterAct_of_conflict ho hd hp.inv hk hne hun (by simp))⟩
  | exit hx _ hstanding hrefused =>
    refine wp_actuationExit hx.receipt_eq (fun e => ⟨rfl, fun hf => absurd ⟨e, rfl⟩ hf⟩)
      fun L r hr => ⟨rfl, ?_⟩
    have hp' := hp.calm (actCalmStep_state (w := s.state.drawn.recorded L r) hp.inv rfl
      fun _ h => h)
    refine act_finish hp' (completion_of_cached ho hp'.inv hk)
      (laterAct_of_conflict ho hd hp'.inv hk hne hun fun other h => ?_)
    obtain rfl : _ = other := by simpa [Except.map] using h
    rw [hstanding, hr, hrefused]

/-- Every `act` meets the discipline. -/
theorem wp_act (hC : rt.canon.Total) (hF : rt.canon.CollisionFree) (ho : ops t = .act intent)
    (hi : ActInv rt ops s) (hfresh : ∀ e ∈ s.history, e.task ≠ t) :
    (actDiscipline rt ops).wp t ((actDiscipline rt ops).finish t) ((ops t).program rt) ∅ ∅ s
      (s.log (.start t)) := by
  have hs : (actDiscipline rt ops).Pause ∅ ∅ s (s.log (.start t)) :=
    (Pause.refl hi fun l hl => absurd hl (Set.notMem_empty l)).event
      (actCalmEvent (fun _ => rfl) (by simp))
  have hun : Unactuated t (s.log (.start t)).history :=
    (unactuated_of_fresh hfresh).snoc (by simp)
  rw [ho]
  simp only [Op.program, wp_map, act, state, wp_bind, wp_getState, wp_onOk, Store.log_state]
  cases hst : s.state.episodes intent.episodeId with
  | none =>
    simp only [wp_raise, wp_onOk_error, Except.map]
    refine act_raises hs fun intent' first result ho' hcomp => ?_
    obtain rfl : intent = intent' := by simpa [ho] using ho'
    refine ⟨fun _ => Or.inr ⟨rfl, (hs.inv.known _ _ hcomp).resolve_left ?_⟩, fun _ => ⟨hun, by simp⟩⟩
    simpa [actKey] using hst
  | some st =>
    simp only [wp_pure, wp_onOk, wp_bind, digest, wp_lift]
    cases hd : rt.canon.digest intent.modelDump with
    | error e =>
      simp only [Except.mapError, wp_onOk_error, Except.map]
      refine act_raises hs fun intent' first result ho' hcomp => ?_
      obtain rfl : intent = intent' := by simpa [ho] using ho'
      refine ⟨fun heq => ?_, fun _ => ⟨hun, by simp⟩⟩
      -- an equal intent completed, so its digest exists
      cases hk : s.state.actuationIdempotency (actKey intent) with
      | none => exact absurd (hcomp.symm.trans (hs.inv.uncached _ hk)) (by simp)
      | some entry =>
        obtain ⟨first', hcomp', hdig⟩ := hs.inv.cached _ entry hk
        obtain ⟨rfl, -⟩ := Prod.mk.inj (Option.some.inj (hcomp'.symm.trans hcomp))
        rw [Canon.digest_congr heq, hdig] at hd
        cases hd
    | ok intentDigest =>
      simp only [Except.mapError, wp_onOk, wp_withLock]
      refine ⟨hs.mono (Set.empty_subset _), fun s₂ hi₂ hr he hown _ => ?_⟩
      have hknown : Known intent.episodeId s₂ :=
        hr.known _ (Or.inl (by simp [hst]))
      have hp : (actDiscipline rt ops).Pause {.episode intent.episodeId} ∅ s₂
          (s₂.log (.grant t (.episode intent.episodeId))) :=
        (Pause.refl hi₂ fun l hl _ => (Set.mem_singleton_iff.mp hl) ▸ hown).event
          (actCalmEvent (fun _ => rfl) (by simp))
      have hun₂ : Unactuated t (s₂.log (.grant t (.episode intent.episodeId))).history :=
        (hun.elsewhere he).snoc (by simp)
      rw [insert_empty_eq]
      simp only [actLocked, wp_bind, wp_getState, wp_onOk, Store.log_state]
      cases hk : s₂.state.actuationIdempotency (actKey intent) with
      | none =>
        refine wp_actFresh hC ho hd (Set.Subset.refl _) hp ⟨hk, hknown.log _, fun k _ hn => ?_⟩
        exact hp.own _ rfl (Set.notMem_empty _) k hn
      | some entry =>
        dsimp only
        split
        case isTrue heq =>
          subst heq
          exact ⟨rfl, act_finish hp (completion_of_cached ho hp.inv hk)
            (laterAct_of_hit hF ho hd hp.inv hk)⟩
        case isFalse hne =>
          exact wp_actConflict ho hd hne (Set.Subset.refl _) hp hk hun₂

end Act

end Discipline

/-! ## Schedules -/

/-- An event that is not a task ending in an exception of the ledger. -/
def notLedgerFault : KernelEvent Λ → Bool
  | .finish _ (.error (.ledger _)) => false
  | _ => true

theorem ledgerFault_notMem {history : List (KernelEvent Λ)}
    (h : history.all notLedgerFault = true) (t : ℕ) (e : LedgerError) :
    .finish t (.error (.ledger e)) ∉ history :=
  fun hm => by simpa [notLedgerFault] using List.all_eq_true.mp h _ hm

/-- One episode `a`, the same actuation twice, and a teardown. -/
def sampleOps : ℕ → Op
  | 0 => .registerProvider ⟨"memory", false⟩
  | 1 => .materialize { idempotencyKey := "m1" }
  | 2 | 3 => .act (sampleAct "a" "k")
  | _ => .teardown "a" none

/-- The two actuations side by side. -/
def sampleSchedule : List ℕ :=
  [0] ++ List.replicate 8 1 ++ [2, 3, 2, 3] ++ List.replicate 8 2 ++ List.replicate 8 3

/-- A task that ends in an exception. -/
def raisedBy (t : ℕ) (e : Exc) : KernelEvent Λ → Bool
  | .finish t' (.error e') => t' == t && e' == e
  | _ => false

end GymAct
