import GymAct.KernelActs

/-!
# Concurrent teardowns

`teardown_once` : while a call that waited for the lock of an episode is granted it only
as long as the episode is registered, the environment is torn down at most once, one
receipt says so, every later teardown returns that receipt, and nothing acts on the
environment afterwards. `teardown_twice` is a schedule of two overlapping teardowns
where the lock is granted too late : the second one tears down again.

The tombstone and the episode table are read before the lock is taken, so what a task
knows under the lock is what the grant establishes (`Registered`).
-/

namespace GymAct

open Coop Coop.Prog Coop.Discipline

variable {Λ : Type}

/-! ## What a history tells -/

/-- The episode a call is made from. -/
def Site.episode : Site → Option String
  | .materialize _ => none
  | .act episodeId _ | .read episodeId | .restore episodeId | .teardown episodeId => some episodeId

/-- The call acts on the environment of an episode, or restores it. -/
def Call.actsOn (episodeId : String) : Call → Bool
  | .actuate site _ _ _ | .restore site _ _ => site.episode == some episodeId
  | _ => false

/-- A teardown of the environment of an episode that succeeds. -/
def isTeardownDone (episodeId : String) : KernelEvent Λ → Bool
  | .reply _ (.teardown (.teardown id) _) (.ok _) => id == episodeId
  | _ => false

/-- How often the environment of an episode was torn down. -/
def teardowns (episodeId : String) (history : List (KernelEvent Λ)) : ℕ :=
  history.countP (isTeardownDone episodeId)

/-- A receipt that says an environment was torn down. -/
def Receipt.tornDown (r : Receipt) : Bool := r.operation == .teardown && r.standing == .alive

/-- How many receipts of an episode say so. -/
def tornReceipts (episodeId : String) (w : World Λ) : ℕ :=
  (w.receipts episodeId).countP Receipt.tornDown

/-- What a `teardown` owes that finishes after the environment is torn down. -/
def LaterTeardown (ops : ℕ → Op) (episodeId : String) (w : World Λ)
    (before : List (KernelEvent Λ)) (t : ℕ) (r : Except Exc Outcome) : Prop :=
  ∀ authorityRef, ops t = .teardown episodeId authorityRef → TornDown episodeId before →
    ∃ receipt ∈ w.receipts episodeId, r = .ok (.toreDown receipt) ∧ receipt.tornDown = true ∧
      w.teardownReceipts episodeId = some receipt

/-- Nothing acts on the environment once it is torn down. -/
def Untouched (episodeId : String) (before : List (KernelEvent Λ)) (e : KernelEvent Λ) : Prop :=
  ∀ t c, e = .call t c → c.actsOn episodeId = true → ¬ TornDown episodeId before

section Histories

variable {episodeId : String} {history : List (KernelEvent Λ)} {e : KernelEvent Λ}

theorem teardowns_snoc (history : List (KernelEvent Λ)) (e : KernelEvent Λ) :
    teardowns episodeId (history ++ [e]) =
      teardowns episodeId history + if isTeardownDone episodeId e then 1 else 0 := by
  simp [teardowns, List.countP_append, List.countP_cons]

theorem isTeardownDone_iff :
    isTeardownDone episodeId e = true ↔
      ∃ t env, e = .reply t (.teardown (.teardown episodeId) env) (.ok ()) := by
  constructor
  · intro h
    unfold isTeardownDone at h
    split at h
    · obtain rfl := eq_of_beq h
      exact ⟨_, _, rfl⟩
    · cases h
  · rintro ⟨t, env, rfl⟩
    simp [isTeardownDone]

theorem tornDown_iff : TornDown episodeId history ↔ 0 < teardowns episodeId history := by
  unfold teardowns
  rw [List.countP_pos_iff]
  constructor
  · rintro ⟨t, env, h⟩
    exact ⟨_, h, isTeardownDone_iff.mpr ⟨t, env, rfl⟩⟩
  · rintro ⟨e, he, h⟩
    obtain ⟨t, env, rfl⟩ := isTeardownDone_iff.mp h
    exact ⟨t, env, he⟩

theorem tornDown_snoc (h : isTeardownDone episodeId e = false) :
    TornDown episodeId (history ++ [e]) ↔ TornDown episodeId history := by
  rw [tornDown_iff, tornDown_iff, teardowns_snoc, h]
  simp

end Histories

/-! ## The discipline -/

/-- Operations that act on the environment of an episode under its lock. -/
def Op.actsOn (episodeId : String) : Op → Bool
  | .act intent => intent.episodeId == episodeId
  | .restore id _ _ | .teardown id _ => id == episodeId
  | _ => false

/-- The episode is in the table. -/
def Registered (episodeId : String) (s : KernelStore Λ) : Prop :=
  s.state.episodes episodeId ≠ none

theorem Registered.congr {episodeId : String} {s s' : KernelStore Λ}
    (he : s'.state.episodes episodeId = s.state.episodes episodeId) (h : Registered episodeId s) :
    Registered episodeId s' := by
  unfold Registered
  rwa [he]

/-- At every suspension. -/
structure TeardownInv (ops : ℕ → Op) (episodeId : String) (s : KernelStore Λ) : Prop where
  receipts : tornReceipts episodeId s.state = teardowns episodeId s.history
  torn : TornDown episodeId s.history → teardowns episodeId s.history = 1 ∧
    ¬ Registered episodeId s ∧ ∃ receipt ∈ s.state.receipts episodeId,
      s.state.teardownReceipts episodeId = some receipt ∧ receipt.tornDown = true
  untorn : ¬ TornDown episodeId s.history → s.state.teardownReceipts episodeId = none
  untouched : AtEvent (Untouched episodeId) s.history
  later : AtFinish (LaterTeardown ops episodeId s.state) s.history

/-- The discipline of `teardown`. A grant is considered while the episode is registered;
nothing is promised after the ledger refused the receipt of a teardown. -/
def teardownDiscipline (ops : ℕ → Op) (episodeId : String) :
    Discipline (kernelSig Λ) Outcome where
  inv := TeardownInv ops episodeId
  own _ _ := True
  rely O s s' := .episode episodeId ∈ O → Registered episodeId s → Registered episodeId s'
  admits t l s := l = .episode episodeId → (ops t).actsOn episodeId = true → Registered episodeId s
  fault t r := (∃ authorityRef, ops t = .teardown episodeId authorityRef) ∧
    ∃ e, r = .error (.ledger e)
  rely_refl _ _ _ h := h
  rely_trans h h' hl hr := h' hl (h hl hr)
  own_stable _ _ h := h

section Discipline

variable {rt : Runtime Λ} {ops : ℕ → Op} {episodeId : String} {t : ℕ} {s : KernelStore Λ}

theorem TeardownInv.untorn_of_registered (hi : TeardownInv ops episodeId s)
    (h : Registered episodeId s) : ¬ TornDown episodeId s.history :=
  fun ht => (hi.torn ht).2.1 h

/-- An event that neither tears down nor touches what is torn down. -/
theorem tornCalmStep {e : KernelEvent Λ} (hi : TeardownInv ops episodeId s)
    (hd : isTeardownDone episodeId e = false) (hu : Untouched episodeId s.history e)
    (hf : ∀ t r, e = .finish t r → LaterTeardown ops episodeId s.state s.history t r) :
    (teardownDiscipline ops episodeId).CalmStep s (s.log e) := by
  have hn : teardowns episodeId (s.history ++ [e]) = teardowns episodeId s.history := by
    simp [teardowns_snoc, hd]
  refine ⟨⟨hi.receipts.trans hn.symm, fun ht => ?_, fun ht => ?_, hi.untouched.snoc hu,
    hi.later.snoc hf⟩, fun O _ h => h⟩
  · rw [Store.log_history, hn]
    exact hi.torn ((tornDown_snoc hd).mp ht)
  · exact hi.untorn fun h => ht ((tornDown_snoc hd).mpr h)

theorem tornCalmEvent {e : KernelEvent Λ} (hd : isTeardownDone episodeId e = false)
    (hu : ∀ t c, e = .call t c → c.actsOn episodeId = false)
    (hf : ∀ t r, e = .finish t r → ∀ authorityRef, ops t ≠ .teardown episodeId authorityRef) :
    (teardownDiscipline ops episodeId).CalmEvent e :=
  fun _ hi => tornCalmStep hi hd (fun t c he ha => absurd (hu t c he) (by simp [ha]))
    fun t r he authorityRef ho => absurd ho (hf t r he authorityRef)

/-- A change of the tables that leaves the episode, and adds no receipt of a teardown. -/
theorem tornCalmStep_state {w : World Λ} (hi : TeardownInv ops episodeId s)
    (hep : w.episodes episodeId = s.state.episodes episodeId)
    (htomb : w.teardownReceipts episodeId = s.state.teardownReceipts episodeId)
    (hrec : ∃ more, w.receipts episodeId = s.state.receipts episodeId ++ more ∧
      ∀ r ∈ more, r.tornDown = false) :
    (teardownDiscipline ops episodeId).CalmStep s { s with state := w } := by
  obtain ⟨more, hm, hmore⟩ := hrec
  have hmem : ∀ r ∈ s.state.receipts episodeId, r ∈ w.receipts episodeId :=
    fun r hr => hm ▸ List.mem_append_left _ hr
  have hreg : Registered episodeId { s with state := w } ↔ Registered episodeId s := by
    unfold Registered
    rw [hep]
  refine ⟨⟨?_, fun ht => ?_, fun ht => htomb.trans (hi.untorn ht), hi.untouched, ?_⟩,
    fun O _ h => hreg.mpr h⟩
  · have hz : more.countP Receipt.tornDown = 0 :=
      List.countP_eq_zero.mpr fun r hr => by simp [hmore r hr]
    have := hi.receipts
    simp only [tornReceipts] at this ⊢
    rw [hm, List.countP_append, hz, this]
    rfl
  · obtain ⟨hn, hr, receipt, hin, htr, hal⟩ := hi.torn ht
    exact ⟨hn, fun h => hr (hreg.mp h), receipt, hmem _ hin, htomb.trans htr, hal⟩
  · intro before t r after hb authorityRef ho ht
    obtain ⟨receipt, hin, hr, hal, htr⟩ := hi.later before t r after hb authorityRef ho ht
    exact ⟨receipt, hmem _ hin, hr, hal, htomb.trans htr⟩

/-! ## Operations -/

/-- Calls other than the teardown of the episode. -/
def NotTeardown (episodeId : String) (c : Call) : Prop :=
  ∀ env, c ≠ .teardown (.teardown episodeId) env

/-- Calls that have nothing to do with the environment of the episode. -/
def Aside (episodeId : String) (c : Call) : Prop :=
  c.actsOn episodeId = false ∧ NotTeardown episodeId c

/-- A receipt that does not say the environment of the episode was torn down. -/
def NotTornDown (episodeId : String) (r : Receipt) : Prop :=
  r.episodeId = episodeId → r.tornDown = false

theorem aside_of_gate {c : Call} (h : Gate c) : Aside episodeId c := by
  cases c <;> simp_all [Gate, Aside, Call.actsOn, NotTeardown]

theorem notTornDown_of_operation {o : Operation} (ho : o ≠ .teardown) (r : Receipt)
    (hr : KernelReceipt o r) : NotTornDown episodeId r :=
  fun _ => by simp [Receipt.tornDown, hr.operation, ho]

theorem isTeardownDone_of_asks {e : KernelEvent Λ} (h : Asks t (NotTeardown episodeId) e) :
    isTeardownDone episodeId e = false := by
  cases hd : isTeardownDone episodeId e with
  | false => rfl
  | true =>
    obtain ⟨t', env, rfl⟩ := isTeardownDone_iff.mp hd
    exact absurd rfl (h.2 env)

/-- A call other than the teardown, where the episode is registered. -/
theorem tornCalmEvent_registered (e : KernelEvent Λ) (h : Asks t (NotTeardown episodeId) e) :
    (teardownDiscipline ops episodeId).CalmEventIn (Registered episodeId) e := by
  intro s hi hr
  refine ⟨tornCalmStep hi (isTeardownDone_of_asks h)
    (fun _ _ _ _ => hi.untorn_of_registered hr) fun t' r he => ?_, hr⟩
  rw [he] at h
  exact absurd h (by simp [Asks])

theorem tornCalmEvent_aside (e : KernelEvent Λ) (h : Asks t (Aside episodeId) e) :
    (teardownDiscipline ops episodeId).CalmEvent e := by
  have h' : Asks t (NotTeardown episodeId) e := by
    cases e with
    | asked | call | reply => exact ⟨h.1, h.2.2⟩
    | start | grant | finish => exact absurd h (by simp [Asks])
  refine tornCalmEvent (isTeardownDone_of_asks h') (fun t' c he => ?_) fun t' r he => ?_
  · rw [he] at h
    exact h.2.1
  · rw [he] at h
    exact absurd h (by simp [Asks])

/-- A change of other tables. -/
theorem tornCalmUpdateIn {P : KernelStore Λ → Prop}
    (hP : ∀ s s', s'.state.episodes episodeId = s.state.episodes episodeId → P s → P s')
    {f : World Λ → World Λ} (hep : ∀ w, (f w).episodes episodeId = w.episodes episodeId)
    (htomb : ∀ w, (f w).teardownReceipts episodeId = w.teardownReceipts episodeId)
    (hrec : ∀ w, (f w).receipts = w.receipts) :
    (teardownDiscipline ops episodeId).CalmUpdateIn P f :=
  fun s hi h => ⟨tornCalmStep_state hi (hep _) (htomb _) ⟨[], by simp [hrec]⟩, hP _ _ (hep _) h⟩

variable (rt) in
theorem tornCalmLaw {P : KernelStore Λ → Prop} {quiet : Call → Prop} {O : Set LockId}
    (hP : ∀ s s', s'.state.episodes episodeId = s.state.episodes episodeId → P s → P s')
    (hcall : ∀ e, Asks t quiet e → (teardownDiscipline ops episodeId).CalmEventIn P e)
    (hstable : (teardownDiscipline ops episodeId).Stable t O P) :
    KernelLaw rt (fun _ _ => True) quiet (NotTornDown episodeId)
      fun _ p => (teardownDiscipline ops episodeId).Calm t O P p := by
  refine calm_law hcall hstable
    (tornCalmUpdateIn hP (fun _ => rfl) (fun _ => rfl) fun _ => rfl)
    (fun _ => tornCalmUpdateIn hP (fun _ => rfl) (fun _ => rfl) fun _ => rfl)
    fun receipt L id now s hplain _ hi h => ⟨tornCalmStep_state hi rfl rfl ?_, hP s _ rfl h⟩
  by_cases hep : receipt.episodeId = episodeId
  · refine ⟨[receipt.stamped id now], ?_, fun r hr => ?_⟩
    · simp [World.recorded, hep]
    · obtain rfl := List.mem_singleton.mp hr
      exact hplain hep
  · exact ⟨[], by simp [World.recorded, Ne.symm hep], by simp⟩

variable (rt ops episodeId t) in
/-- What stands aside of the episode. -/
theorem tornAsideLaw (O : Set LockId) :
    KernelLaw rt (fun _ _ => True) (Aside episodeId) (NotTornDown episodeId)
      fun _ p => (teardownDiscipline ops episodeId).Calm t O (fun _ => True) p :=
  tornCalmLaw rt (fun _ _ _ h => h) (fun e h => (tornCalmEvent_aside e h).inTrue) Stable.true

variable (rt ops episodeId t) in
theorem tornAsideLockedLaw (l : LockId) :
    LockedLaw rt (fun _ _ => True) (Aside episodeId) (Aside episodeId) (NotTornDown episodeId)
      (fun _ p => (teardownDiscipline ops episodeId).Calm t ∅ (fun _ => True) p) l
      fun _ p => (teardownDiscipline ops episodeId).Calm t {l} (fun _ => True) p := by
  refine ⟨tornAsideLaw rt ops episodeId t ∅, tornAsideLaw rt ops episodeId t {l}, fun hp => ?_⟩
  refine Calm.withLock (P := fun _ => True) (Set.notMem_empty l)
    (tornCalmEvent rfl (by simp) (by simp)) (fun _ _ _ => trivial) ?_
  rwa [insert_empty_eq]

theorem stable_registered :
    (teardownDiscipline ops episodeId).Stable (α := Outcome) (S := kernelSig Λ) t
      {.episode episodeId} (Registered episodeId) :=
  fun _ _ _ hr _ h => hr rfl h

variable (rt ops episodeId t) in
/-- What stands under the lock of the registered episode. -/
theorem tornOnLaw : KernelLaw rt (fun _ _ => True) (NotTeardown episodeId)
    (NotTornDown episodeId) fun _ p => (teardownDiscipline ops episodeId).Calm t
      {.episode episodeId} (Registered episodeId) p :=
  tornCalmLaw rt (fun _ _ => Registered.congr) tornCalmEvent_registered stable_registered

variable (rt ops episodeId t) in
/-- What acts on the episode does so under its lock, where a grant finds it registered. -/
theorem tornOnLockedLaw (ht : (ops t).actsOn episodeId = true) :
    LockedLaw rt (fun _ _ => True) (Aside episodeId) (NotTeardown episodeId)
      (NotTornDown episodeId)
      (fun _ p => (teardownDiscipline ops episodeId).Calm t ∅ (fun _ => True) p)
      (.episode episodeId) fun _ p => (teardownDiscipline ops episodeId).Calm t
        {.episode episodeId} (Registered episodeId) p := by
  refine ⟨tornAsideLaw rt ops episodeId t ∅, tornOnLaw rt ops episodeId t, fun hp => ?_⟩
  refine Calm.withLock (P := Registered episodeId) (Set.notMem_empty _)
    (tornCalmEvent rfl (by simp) (by simp)) (fun s hi hadm => hadm rfl ht) ?_
  rwa [insert_empty_eq]

/-- `read` takes no lock, but looks the episode up in the segment of its call. -/
theorem calm_read (capabilityRef : String) (payload : Option Payload) :
    (teardownDiscipline ops episodeId).Calm t ∅ (fun _ => True)
      (read (Λ := Λ) episodeId capabilityRef payload) := by
  intro Os s₀ s hO h _
  simp only [read, state, wp_bind, wp_getState, wp_onOk]
  cases hst : s.state.episodes episodeId with
  | none => exact ⟨rfl, hO, h, trivial⟩
  | some st =>
    simp only [wp_pure, wp_onOk]
    intro cs
    have hs := h.event (tornCalmEvent_aside (t := t)
      (.asked t (.capabilities st.environment) cs) ⟨rfl, aside_of_gate trivial⟩)
    change (teardownDiscipline ops episodeId).wp t _ (onOk _ (settle _ cs)) ∅ Os s₀ _
    cases settle (.provider ⟨"TimeoutError", ""⟩) cs with
    | error e => exact ⟨rfl, hO, hs, trivial⟩
    | ok capabilities =>
      simp only [wp_onOk]
      split
      · exact ⟨rfl, hO, hs, trivial⟩
      · split
        · exact ⟨rfl, hO, hs, trivial⟩
        case h_2 capability _ _ =>
          have hreg : Registered episodeId (s.log (.asked t (.capabilities st.environment) cs)) := by
            simp [Registered, hst]
          obtain ⟨hcall, -⟩ := tornCalmEvent_registered (t := t)
            (.call t (.actuate (.read episodeId) st.environment capability (payload.getD [])))
            ⟨rfl, by simp [NotTeardown]⟩ _ hs.inv hreg
          refine ⟨(hs.calm hcall).mono (Set.empty_subset _), fun s₂ hi hr he r => ?_⟩
          refine ⟨rfl, Set.Subset.refl _, ((hs.calm hcall).resume hO hi hr).event ?_, trivial⟩
          exact tornCalmEvent rfl (by simp) (by simp)

/-! ## The teardown of the episode -/

section Teardown

variable {authorityRef : Option String} {st : EpisodeState} {s₀ : KernelStore Λ} {Os : Set LockId}

/-- How a `teardown` leaves the lock and finishes. -/
def TeardownExits (ops : ℕ → Op) (episodeId : String) (t : ℕ) (r : Except Exc Receipt)
    (O Os : Set LockId) (s₀ s : KernelStore Λ) : Prop :=
  .episode episodeId ∈ O ∧ (teardownDiscipline ops episodeId).finish t (r.map .toreDown)
    (O \ {.episode episodeId}) Os s₀ s

/-- A finish before the environment is torn down owes nothing. -/
theorem teardown_finish {r : Except Exc Outcome} {O : Set LockId}
    (hp : (teardownDiscipline ops episodeId).Pause Os ∅ s₀ s)
    (hl : LaterTeardown ops episodeId s.state s.history t r) :
    (teardownDiscipline ops episodeId).finish t r O Os s₀ s := by
  refine fun _ => (hp.calm (tornCalmStep hp.inv rfl (by simp [Untouched]) fun t' r' he => ?_)).mono
    (Set.empty_subset O)
  obtain ⟨rfl, rfl⟩ := Event.finish.inj he
  exact hl

theorem laterTeardown_of_untorn {r : Except Exc Outcome}
    (h : ¬ TornDown episodeId s.history) : LaterTeardown ops episodeId s.state s.history t r :=
  fun _ _ ht => absurd ht h

/-- A receipt of a `teardown` that did not happen. -/
theorem wp_teardownRefuse {receipt : Receipt} (hplain : NotTornDown episodeId receipt)
    (hO : {.episode episodeId} ⊆ Os) (hp : (teardownDiscipline ops episodeId).Pause Os ∅ s₀ s)
    (hr : Registered episodeId s) :
    (teardownDiscipline ops episodeId).wp t (TeardownExits ops episodeId t)
      (recordNew rt receipt) {.episode episodeId} Os s₀ s := by
  have hK := tornOnLaw rt ops episodeId t
  refine wp_mono (fun r O' Os' s₀ s h => ?_) _ (hK.recordNew hplain Os s₀ s hO hp hr)
  obtain ⟨rfl, -, hp, hr⟩ := h
  exact ⟨rfl, teardown_finish hp (laterTeardown_of_untorn (hp.inv.untorn_of_registered hr))⟩

/-- The environment is torn down, and the receipt says so. -/
theorem teardown_done {env : Environment} {L : Λ} {receipt : Receipt} {O : Set LockId}
    (hi : TeardownInv ops episodeId s) (hreg : Registered episodeId s)
    (hep : receipt.episodeId = episodeId) (hrec : receipt.tornDown = true) :
    (teardownDiscipline ops episodeId).finish t (.ok (.toreDown receipt)) O {.episode episodeId} s
      { s.log (.reply t (.teardown (.teardown episodeId) env) (.ok ())) with
        state := ((s.state.drawn.recorded L receipt).buried episodeId receipt).dropped
          episodeId } := by
  intro _
  have hun := hi.untorn_of_registered hreg
  have hzero : teardowns episodeId s.history = 0 := by
    have := mt tornDown_iff.mpr hun
    omega
  have hdone : isTeardownDone episodeId (.reply t (.teardown (.teardown episodeId) env) (.ok ()) :
      KernelEvent Λ) = true := by
    simp [isTeardownDone]
  have hone : teardowns episodeId (s.history ++ [.reply t (.teardown (.teardown episodeId) env)
      (.ok ()), .finish t (.ok (.toreDown receipt))]) = 1 := by
    rw [List.append_cons, teardowns_snoc, teardowns_snoc, hdone, hzero]
    rfl
  have hreceipts : (((s.state.drawn.recorded L receipt).buried episodeId receipt).dropped
      episodeId).receipts episodeId = s.state.receipts episodeId ++ [receipt] := by
    simp [World.dropped, World.buried, World.recorded, World.drawn, hep]
  have hin : receipt ∈ (((s.state.drawn.recorded L receipt).buried episodeId receipt).dropped
      episodeId).receipts episodeId := by
    simp [hreceipts]
  have htomb : (((s.state.drawn.recorded L receipt).buried episodeId receipt).dropped
      episodeId).teardownReceipts episodeId = some receipt := Function.update_self ..
  refine ⟨⟨?_, fun _ => ⟨?_, ?_, receipt, hin, htomb, hrec⟩, fun h => ?_, ?_, ?_⟩,
    fun O' hd hl => absurd rfl (Set.disjoint_left.mp hd hl), fun _ _ _ => trivial⟩
  · have := hi.receipts
    simp only [tornReceipts, Store.log_state, Store.log_history, List.append_assoc,
      List.cons_append, List.nil_append] at this ⊢
    rw [hone, hreceipts, List.countP_append, this, hzero]
    simp [hrec]
  · simpa using hone
  · simp [Registered, World.dropped]
  · exact absurd (tornDown_iff.mpr (by simp [hone])) h
  · exact (hi.untouched.snoc (by simp [Untouched])).snoc (by simp [Untouched])
  · -- no earlier finish comes after the teardown
    have hearlier : AtFinish (LaterTeardown ops episodeId (((s.state.drawn.recorded L
        receipt).buried episodeId receipt).dropped episodeId)) s.history := by
      intro before t' r after hb _ _ ht
      exact absurd (hb ▸ ht.append _) hun
    refine (hearlier.snoc (by simp)).snoc fun t' r he _ _ _ => ?_
    obtain ⟨rfl, rfl⟩ := Event.finish.inj he
    exact ⟨receipt, hin, rfl, hrec, htomb⟩

/-- `teardown` of the episode meets the discipline. -/
theorem wp_teardown (hC : rt.canon.Total) (ho : ops t = .teardown episodeId authorityRef)
    (hi : TeardownInv ops episodeId s) :
    (teardownDiscipline ops episodeId).wp t ((teardownDiscipline ops episodeId).finish t)
      ((ops t).program rt) ∅ ∅ s (s.log (.start t)) := by
  have hs : (teardownDiscipline ops episodeId).Pause ∅ ∅ s (s.log (.start t)) :=
    (Pause.refl hi fun l hl => absurd hl (Set.notMem_empty l)).event
      (tornCalmEvent rfl (by simp) (by simp))
  rw [ho]
  simp only [Op.program, wp_map, teardown, wp_bind, wp_getState, wp_onOk, Store.log_state]
  cases htomb : s.state.teardownReceipts episodeId with
  | some prior =>
    refine teardown_finish hs fun _ _ ht => ?_
    obtain ⟨-, -, receipt, hin, htr, hal⟩ := hs.inv.torn ht
    obtain rfl : prior = receipt := Option.some.inj (htomb.symm.trans htr)
    exact ⟨prior, hin, rfl, hal, htr⟩
  | none =>
    have hun : ¬ TornDown episodeId (s.log (.start t)).history := fun ht => by
      obtain ⟨-, -, receipt, -, htr, -⟩ := hs.inv.torn ht
      exact absurd (htomb.symm.trans htr) (by simp)
    simp only [wp_bind, state, wp_getState, wp_onOk, Store.log_state]
    cases hst : s.state.episodes episodeId with
    | none => exact teardown_finish hs (laterTeardown_of_untorn hun)
    | some st =>
      simp only [wp_pure, wp_onOk, wp_withLock]
      refine ⟨hs.mono (Set.empty_subset _), fun s₂ hi₂ hr he hown hadm => ?_⟩
      have hreg : Registered episodeId s₂ := hadm rfl (by simp [ho, Op.actsOn])
      have hp : (teardownDiscipline ops episodeId).Pause {.episode episodeId} ∅ s₂
          (s₂.log (.grant t (.episode episodeId))) :=
        (Pause.refl hi₂ fun _ _ _ => trivial).event (tornCalmEvent rfl (by simp) (by simp))
      rw [insert_empty_eq]
      refine wp_of_leads (P := Registered episodeId) (Φ := TeardownExits ops episodeId t)
        (Set.empty_subset _)
        (fun e h => tornCalmEvent_registered (t := t) e ?_) stable_registered
        (fun q Os s₀ s hO hp hreg ht => ?_)
        (leads_teardownLocked rt episodeId authorityRef st) (Set.Subset.refl _) hp hreg
      · cases e with
        | asked | call | reply => exact ⟨h.1, (aside_of_gate h.2).2⟩
        | start | grant | finish => exact absurd h (by simp [Asks])
      cases ht with
      | raise e =>
        exact ⟨rfl, teardown_finish hp
          (laterTeardown_of_untorn (hp.inv.untorn_of_registered hreg))⟩
      | refuse hep hop hst =>
        exact wp_teardownRefuse (fun _ => by simp [Receipt.tornDown, hst]) hO hp hreg
      | proceed before authority =>
        obtain ⟨k, hk, hdone, hfail⟩ :=
          teardownAdmitted_eq rt episodeId authorityRef st before authority
        rw [hk]
        have hcall := hp.calm (tornCalmStep hp.inv
          (e := .call t (Call.teardown (.teardown episodeId) st.environment)) rfl
          (fun _ _ _ _ => hp.inv.untorn_of_registered hreg) (by simp))
        refine ⟨hcall.mono (Set.empty_subset _), fun s₂ hi₂ hr _ r => ?_⟩
        have hreg₂ : Registered episodeId s₂ := hr rfl hreg
        rcases r with failure | ⟨⟩
        · obtain ⟨exc, hexc⟩ := hfail failure
          rw [hexc]
          obtain ⟨d, hd⟩ := errorDigest_eq hC exc
          rw [hd, prog_pure_bind]
          refine wp_teardownRefuse (fun _ => by simp [Receipt.tornDown, teardownReceipt])
            (Set.Subset.refl _) ((hcall.resume hO hi₂ hr).event ?_) hreg₂
          exact tornCalmEvent rfl (by simp) (by simp)
        · rw [hdone]
          refine wp_teardownRest (fun e => ⟨rfl, fun hf => absurd ⟨⟨authorityRef, ho⟩, e, rfl⟩ hf⟩)
            (fun L id now hgone => absurd hgone hreg₂) fun L id now _ => ⟨rfl, ?_⟩
          exact teardown_done hi₂ hreg₂ rfl rfl

end Teardown

/-- Every other operation but `materialize` meets the discipline. -/
theorem wp_otherThanTeardown (hC : rt.canon.Total)
    (ht : ∀ authorityRef, ops t ≠ .teardown episodeId authorityRef)
    (hm : ∀ intent, ops t ≠ .materialize intent) (hi : TeardownInv ops episodeId s) :
    (teardownDiscipline ops episodeId).wp t ((teardownDiscipline ops episodeId).finish t)
      ((ops t).program rt) ∅ ∅ s (s.log (.start t)) := by
  have hlaw := tornAsideLaw rt ops episodeId t ∅
  have hK := tornAsideLockedLaw rt ops episodeId t
  have hg : ∀ c, Gate c → Aside episodeId c := fun _ => aside_of_gate
  have hg' : ∀ c, Gate c → NotTeardown episodeId c := fun _ h => (aside_of_gate h).2
  have hupdate : ∀ (l : Set LockId) (P : KernelStore Λ → Prop),
      (∀ s s', s'.state.episodes episodeId = s.state.episodes episodeId → P s → P s') →
      ∀ {f : World Λ → World Λ}, (∀ w, (f w).episodes episodeId = w.episodes episodeId) →
      (∀ w, (f w).teardownReceipts episodeId = w.teardownReceipts episodeId) →
      (∀ w, (f w).receipts = w.receipts) →
      (teardownDiscipline ops episodeId).Calm t l P (Prog.modify f) :=
    fun l P hP _ h₁ h₂ h₃ => Calm.modify (tornCalmUpdateIn hP h₁ h₂ h₃)
  refine Calm.finish ?_ (tornCalmEvent rfl (by simp) (by simp))
    (fun r => tornCalmEvent rfl (by simp) fun t' r' h => ?_) hi
  · cases ho : ops t with
    | registerProvider provider =>
      exact (hlaw.registerProvider (fun _ _ => hupdate _ _ (fun _ _ _ h => h) (fun _ => rfl)
        (fun _ => rfl) fun _ => rfl) provider).map _
    | materialize intent => exact absurd ho (hm intent)
    | capabilities id => exact (hlaw.capabilities hg id).map _
    | observe id => exact ((hK _).observe hg).map _
    | read id ref payload =>
      by_cases hid : id = episodeId
      · exact hid ▸ (calm_read ref payload).map _
      · exact (hlaw.read hg (fun _ _ _ _ => ⟨by simp [Call.actsOn, Site.episode, hid],
          by simp [NotTeardown]⟩) ref payload).map _
    | act intent =>
      by_cases hid : intent.episodeId = episodeId
      · have hOn := tornOnLockedLaw rt ops episodeId t (by simp [ho, Op.actsOn, hid])
        rw [← hid] at hOn hg' ⊢
        exact (hOn.act hC hg' (fun _ _ _ => by simp [NotTeardown])
          (fun _ => Calm.modify (tornCalmUpdateIn (fun _ _ => Registered.congr) (fun _ => rfl)
            (fun _ => rfl) fun _ => rfl)) (notTornDown_of_operation (by decide))).map _
      · exact ((hK _).act hC hg (fun _ _ _ => ⟨by simp [Call.actsOn, Site.episode, hid],
          by simp [NotTeardown]⟩) (fun _ => hupdate _ _ (fun _ _ _ h => h) (fun _ => rfl)
          (fun _ => rfl) fun _ => rfl) (notTornDown_of_operation (by decide))).map _
    | verify id expected =>
      exact ((hK _).verify hg (fun _ _ => ⟨rfl, by simp [NotTeardown]⟩)
        (notTornDown_of_operation (by decide)) expected).map _
    | checkpoint id => exact ((hK _).checkpoint fun _ => ⟨rfl, by simp [NotTeardown]⟩).map _
    | restore id saved authorityRef =>
      by_cases hid : id = episodeId
      · subst hid
        exact ((tornOnLockedLaw rt ops id t (by simp [ho, Op.actsOn])).restore hg'
          (fun _ _ => by simp [NotTeardown]) (notTornDown_of_operation (by decide)) saved
          authorityRef).map _
      · exact ((hK _).restore hg (fun _ _ => ⟨by simp [Call.actsOn, Site.episode, hid],
          by simp [NotTeardown]⟩) (notTornDown_of_operation (by decide)) saved authorityRef).map _
    | teardown id authorityRef =>
      have hid : id ≠ episodeId := fun h => ht authorityRef (h ▸ ho)
      refine Calm.map ((hK _).teardown hg (fun r _ hst _ => by simp [Receipt.tornDown, hst])
        fun st before authority => ?_) _
      exact (tornAsideLaw rt ops episodeId t _).teardownAdmitted
        (fun _ => ⟨rfl, by simp [NotTeardown, hid]⟩) (fun r _ hr h => absurd (hr.symm.trans h) hid)
        (fun _ => hupdate _ _ (fun _ _ _ h => h) (fun _ => rfl)
          (fun w => Function.update_of_ne (Ne.symm hid) _ _) fun _ => rfl)
        (hupdate _ _ (fun _ _ _ h => h) (fun w => Function.update_of_ne (Ne.symm hid) _ _)
          (fun _ => rfl) fun _ => rfl) authorityRef st before authority
  · obtain ⟨rfl, -⟩ := Event.finish.inj h
    exact ht

end Discipline

/-! ## Schedules -/

/-- If the next task is granted the lock of the episode to act on its environment, the
episode is registered. -/
def grantsRegistered (ops : ℕ → Op) (episodeId : String) (cfg : Config (kernelSig Λ) Outcome)
    (t : ℕ) : Bool :=
  match cfg.tasks t with
  | .waiting l _ => l != .episode episodeId || (cfg.holder l).isSome ||
      !(ops t).actsOn episodeId || (cfg.store.state.episodes episodeId).isSome
  | _ => true

/-- In every schedule in which the lock of a registered episode is granted to its acting
operations only while the episode is registered, and the ledger takes the receipts of its
teardowns, the environment is torn down at most once, one receipt says so, every teardown
that finishes afterwards returns that receipt, and nothing acts on the environment any
more. -/
theorem teardown_once (rt : Runtime Λ) (ops : ℕ → Op) (episodeId : String)
    (hC : rt.canon.Total) (hm : ∀ t intent, ops t ≠ .materialize intent) (w : World Λ)
    (htomb : w.teardownReceipts episodeId = none) (hrec : tornReceipts episodeId w = 0)
    (ω : Outside (kernelSig Λ) Outcome) (schedule : List ℕ)
    (hgrant : ∀ ts t us, schedule = ts ++ t :: us →
      grantsRegistered ops episodeId ((concurrent rt ops w).run ω ts) t = true)
    (hledger : ∀ t authorityRef e, ops t = .teardown episodeId authorityRef →
      .finish t (.error (.ledger e)) ∉ ((concurrent rt ops w).run ω schedule).store.history) :
    let final := ((concurrent rt ops w).run ω schedule).store
    teardowns episodeId final.history ≤ 1 ∧ tornReceipts episodeId final.state ≤ 1 ∧
      AtFinish (LaterTeardown ops episodeId final.state) final.history ∧
      AtEvent (Untouched episodeId) final.history := by
  have hinit : (teardownDiscipline ops episodeId).Sound (concurrent rt ops w) := by
    refine Sound.initial ⟨hrec, fun h => ?_, fun _ => htomb, AtEvent.nil, AtFinish.nil⟩
      (fun _ => trivial) fun t s hi _ => ?_
    · exact absurd (tornDown_iff.mp h) (by simp [teardowns])
    · by_cases ho : ∃ authorityRef, ops t = .teardown episodeId authorityRef
      · obtain ⟨authorityRef, ho⟩ := ho
        exact wp_teardown hC ho hi
      · exact wp_otherThanTeardown hC (fun a h => ho ⟨a, h⟩) (hm t) hi
  have hsound := hinit.run ω schedule (fun ts t us h l k hw hfree hl ha => ?_)
    fun t r hr ⟨⟨authorityRef, ho⟩, e, he⟩ => hledger t authorityRef e ho (he ▸ hr)
  · have hinv := hsound.inv
    have hone : teardowns episodeId ((concurrent rt ops w).run ω schedule).store.history ≤ 1 := by
      by_cases ht : TornDown episodeId ((concurrent rt ops w).run ω schedule).store.history
      · exact (hinv.torn ht).1.le
      · have := mt tornDown_iff.mpr ht
        omega
    exact ⟨hone, hinv.receipts.trans_le hone, hinv.later, hinv.untouched⟩
  · subst hl
    have hg := hgrant ts t us h
    simp only [grantsRegistered, hw, hfree, ha] at hg
    simpa [Registered, Option.isSome_iff_ne_none] using hg

/-- A registered episode `a`. -/
def sampleWorld : MemoryWorld :=
  (runOps sampleRuntime sampleOutside
    [.registerProvider ⟨"memory", false⟩, .materialize { idempotencyKey := "m1" }]
    (newWorld, [])).1

/-- An actuation and two teardowns. -/
def sampleTeardowns : ℕ → Op
  | 0 => .act (sampleAct "a" "k")
  | _ => .teardown "a" none

theorem teardown_once_sample :
    teardowns "a" ((concurrent sampleRuntime sampleTeardowns sampleWorld).run
      (fun _ => sampleOutside [])
      (List.replicate 8 0 ++ List.replicate 8 1 ++ List.replicate 8 2)).store.history ≤ 1 := by
  refine (teardown_once sampleRuntime sampleTeardowns "a" Canon.reference_total
    (fun t intent => ?_) sampleWorld (by decide +kernel) (by decide +kernel)
    (fun _ => sampleOutside []) _ (fun ts t us h => ?_)
    fun t a e _ => ledgerFault_notMem (by decide +kernel) t e).1
  · unfold sampleTeardowns
    split <;> simp
  · have hgrants : ∀ n < 24, grantsRegistered sampleTeardowns "a"
        ((concurrent sampleRuntime sampleTeardowns sampleWorld).run (fun _ => sampleOutside [])
          ((List.replicate 8 0 ++ List.replicate 8 1 ++ List.replicate 8 2).take n))
        ((List.replicate 8 0 ++ List.replicate 8 1 ++ List.replicate 8 2).getD n 0) = true := by
      decide +kernel
    have hlen := congrArg List.length h
    have hg := hgrants ts.length (by simp at hlen; omega)
    rw [h] at hg
    simpa using hg

/-- Two teardowns that both find the episode registered : the second one is granted the
lock after the first is done, tears down again, records another receipt and raises. -/
theorem teardown_twice :
    let final := ((concurrent sampleRuntime sampleTeardowns sampleWorld).run
      (fun _ => sampleOutside []) ([1, 2] ++ List.replicate 8 1 ++ List.replicate 8 2)).store
    teardowns "a" final.history = 2 ∧ tornReceipts "a" final.state = 2 ∧
      final.history.any (raisedBy 2 (.keyError "a")) = true ∧
      final.history.all notLedgerFault = true := by
  decide +kernel

end GymAct
