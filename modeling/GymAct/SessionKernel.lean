import GymAct.ActTrace
import GymAct.Harness
import GymAct.Outcomes

/-!
# A session over the kernel

The runtime a session calls is the kernel : each call is answered by the kernel's program of it,
run where the calls before it left the kernel (`kernelRuntime`). What a session finds there of its
environment is said by the state the environment is in after the calls made of it
(`FaithfulEnvironment`) : looking at it changes nothing, and a restore that succeeds brings back
the state the checkpoint was taken in. An actuation or a verification may do anything.
-/

namespace GymAct

open Coop Coop.Prog

variable {Λ : Type}

/-- The kernel, with the calls made of its collaborators. -/
abbrev KernelAt (Λ : Type) := World Λ × Log (kernelSig Λ)

section Served

variable (rt : Runtime Λ) (κ : Oracle (kernelSig Λ)) (k : KernelAt Λ)

/-- The kernel once it served the calls of a session. -/
def served (calls : Log harnessSig) : KernelAt Λ :=
  calls.foldl (fun k e => (exec κ (e.1.program rt) k.1 k.2).2) k

/-- The kernel as the runtime of a session. -/
def kernelRuntime : Oracle harnessSig := fun calls c =>
  (exec κ (c.program rt) (served rt κ k calls).1 (served rt κ k calls).2).1

@[simp] theorem served_nil : served rt κ k [] = k := rfl

theorem served_cons (e : Σ c : RuntimeCall, Except Exc c.Value) (calls : Log harnessSig) :
    served rt κ k (e :: calls) = served rt κ (exec κ (e.1.program rt) k.1 k.2).2 calls := rfl

theorem served_append (pre post : Log harnessSig) :
    served rt κ k (pre ++ post) = served rt κ (served rt κ k pre) post := List.foldl_append

end Served

/-! ## Environments -/

/-- Calls that look at an environment, or ask for authority. -/
def Looks : Call → Prop
  | .authorize _ | .capabilities _ | .observe _ | .checkpoint _ => True
  | _ => False

theorem looks_of_gate {c : Call} (h : Gate c) : Looks c := by
  cases c <;> trivial

/-- An environment whose `restore(checkpoint())` is faithful. -/
structure FaithfulEnvironment (κ : Oracle (kernelSig Λ)) (env : Environment) (W : Type) where
  /-- Its state after the calls of a log. -/
  state : Log (kernelSig Λ) → W
  looks : ∀ log c r, Looks c → state (log ++ [⟨c, r⟩]) = state log
  restores : ∀ log more site saved, κ log (.checkpoint env) = .ok saved →
    κ (log ++ ⟨.checkpoint env, .ok saved⟩ :: more) (.restore site env saved) = .ok () →
      state (log ++ ⟨.checkpoint env, .ok saved⟩ :: more ++ [⟨.restore site env saved, .ok ()⟩]) =
        state log

namespace FaithfulEnvironment

variable {κ : Oracle (kernelSig Λ)} {env : Environment} {W : Type}

/-- Looking around changes nothing. -/
theorem state_looks (E : FaithfulEnvironment κ env W) (more : Log (kernelSig Λ)) :
    ∀ log, (∀ e ∈ more, Looks e.1) → E.state (log ++ more) = E.state log := by
  induction more with
  | nil => exact fun log _ => by rw [List.append_nil]
  | cons e more ih =>
    intro log h
    obtain ⟨he, hmore⟩ := List.forall_mem_cons.mp h
    rw [List.append_cons, ih _ hmore, E.looks log e.1 e.2 he]

end FaithfulEnvironment

/-! ## What the calls of a session leave alone -/

section Frames

variable {rt : Runtime Λ} {A : (c : Call) → c.Reply → Prop}

/-- The episodes of the kernel are these, and the log satisfies `F`. -/
def EpisodesAre (episodes : Dict EpisodeState) (F : Log (kernelSig Λ) → Prop) (w : World Λ)
    (log : Log (kernelSig Λ)) : Prop :=
  w.episodes = episodes ∧ F log

variable {episodes : Dict EpisodeState} {quiet : Call → Prop} {F : Log (kernelSig Λ) → Prop}

/-- Keeping the episodes and what quiet calls keep is a law of operations. -/
theorem episodes_law (hF : ∀ log c r, quiet c → F log → F (log ++ [⟨c, r⟩])) :
    KernelLaw rt A quiet (fun _ => True) fun _ p => Keeps A (EpisodesAre episodes F) p where
  ret r := Keeps.lift (A := A) r
  bindE hp hf := hp.bindE hf
  getState := Keeps.getState (A := A)
  leads hp ht := hp.keeps (fun _ log c r hc h => ⟨h.1, hF log c r hc h.2⟩) ht
  idle := Keeps.modify fun _ _ h => h
  drawn := Keeps.modify fun _ _ h => h
  verified _ := Keeps.modify fun _ _ h => h
  recorded _ hf := by
    intro w log h
    rw [post_bind, post_stamp, post_onOk, post_bind, post_record]
    exact ⟨fun _ _ => h, fun _ _ => hf _ _ _ h⟩

theorem episodes_lockedLaw (hF : ∀ log c r, quiet c → F log → F (log ++ [⟨c, r⟩])) (l : LockId) :
    LockedLaw rt A quiet quiet (fun _ => True) (fun _ p => Keeps A (EpisodesAre episodes F) p) l
      fun _ p => Keeps A (EpisodesAre episodes F) p :=
  ⟨episodes_law hF, episodes_law hF, fun h => h.withLock l⟩

/-- The calls of a session that look at its episode. -/
def RuntimeCall.looks : RuntimeCall → Bool
  | capabilities _ | observe _ | checkpoint _ => true
  | _ => false

/-- The calls of a session on its episode. -/
def RuntimeCall.onEpisode : RuntimeCall → Bool
  | materialize _ | teardown .. => false
  | _ => true

theorem RuntimeCall.onEpisode_of_looks {c : RuntimeCall} (h : c.looks = true) :
    c.onEpisode = true := by
  cases c <;> first | rfl | exact absurd h nofun

theorem keeps_looks (hF : ∀ log c r, Looks c → F log → F (log ++ [⟨c, r⟩])) {c : RuntimeCall}
    (hc : c.looks = true) : Keeps A (EpisodesAre episodes F) (c.program rt) := by
  have hlaw : KernelLaw rt A Looks (fun _ => True)
      fun _ p => Keeps A (EpisodesAre episodes F) p := episodes_law hF
  have hlocked (l : LockId) : LockedLaw rt A Looks Looks (fun _ => True)
      (fun _ p => Keeps A (EpisodesAre episodes F) p) l
        fun _ p => Keeps A (EpisodesAre episodes F) p := episodes_lockedLaw hF l
  cases c with
  | capabilities id => exact hlaw.capabilities (fun _ => looks_of_gate) id
  | observe id => exact (hlocked _).observe fun _ => looks_of_gate
  | checkpoint id => exact (hlocked _).checkpoint fun _ => trivial
  | _ => exact absurd hc nofun

theorem keeps_onEpisode (hC : rt.canon.Total) {c : RuntimeCall} (hc : c.onEpisode = true) :
    Keeps A (EpisodesAre episodes fun _ => True) (c.program rt) := by
  have hlaw : KernelLaw rt A (fun _ => True) (fun _ => True)
      fun _ p => Keeps A (EpisodesAre episodes fun _ => True) p :=
    episodes_law fun _ _ _ _ _ => trivial
  have hlocked (l : LockId) : LockedLaw rt A (fun _ => True) (fun _ => True) (fun _ => True)
      (fun _ p => Keeps A (EpisodesAre episodes fun _ => True) p) l
        fun _ p => Keeps A (EpisodesAre episodes fun _ => True) p :=
    episodes_lockedLaw (fun _ _ _ _ _ => trivial) l
  cases c with
  | materialize intent => exact absurd hc nofun
  | teardown id authorityRef => exact absurd hc nofun
  | capabilities id => exact hlaw.capabilities (fun _ _ => trivial) id
  | observe id => exact (hlocked _).observe fun _ _ => trivial
  | read id ref payload => exact hlaw.read (fun _ _ => trivial) (fun _ _ _ _ => trivial) ref _
  | act intent =>
    exact (hlocked _).act hC (fun _ _ => trivial) (fun _ _ _ => trivial)
      (fun _ => Keeps.modify fun _ _ h => h) fun _ _ => trivial
  | verify id expected =>
    exact (hlocked _).verify (fun _ _ => trivial) (fun _ _ => trivial) (fun _ _ => trivial) expected
  | checkpoint id => exact (hlocked _).checkpoint fun _ => trivial
  | restore id saved authorityRef =>
    exact (hlocked _).restore (fun _ _ => trivial) (fun _ _ => trivial) (fun _ _ => trivial) saved
      authorityRef
  | uuid4 => exact hlaw.uuid4

end Frames

/-! ## Checkpoints and restores -/

section Rollback

variable {rt : Runtime Λ} {A : (c : Call) → c.Reply → Prop} {w : World Λ} {log : Log (kernelSig Λ)}
  {id : String} {st : EpisodeState}

/-- A checkpoint is the answer of the environment. -/
theorem post_checkpoint (hst : w.episodes id = some st) :
    post A (fun r _ log' => ∀ saved, r = .ok saved →
      log' = log ++ ⟨.checkpoint st.environment, .ok saved⟩ :: []) (checkpoint rt id) w log := by
  rw [checkpoint, post_bind, state, post_bind, post_getState, post_onOk, hst, post_pure, post_onOk,
    post_withLock, checkpointLocked, post_bind]
  refine kernel_post_bounded.mpr fun r _ => ?_
  rcases r with e | payload
  · cases e <;> exact fun _ h => by cases h
  · rw [settle, post_onOk, post_bind, post_lift]
    rcases ensureCheckpoint rt (.dict payload) with e | ⟨⟩
    · exact fun _ h => by cases h
    · rintro _ ⟨rfl⟩
      rfl

/-- The environment restored the checkpoint, and was looked at since. -/
def RestoredAt (st : EpisodeState) (id : String) (saved : Payload) (log : Log (kernelSig Λ))
    (log' : Log (kernelSig Λ)) : Prop :=
  ∃ mid rest, log' = log ++ (mid ++ ⟨.restore (.restore id) st.environment saved, .ok ()⟩ :: rest) ∧
    ∀ e ∈ rest, Looks e.1

/-- A good receipt is of a restore that the environment did. -/
def GoodRestored (st : EpisodeState) (id : String) (saved : Payload) (log : Log (kernelSig Λ))
    (r : Except Exc Receipt) (_ : World Λ) (log' : Log (kernelSig Λ)) : Prop :=
  ∀ receipt, r = .ok receipt → receipt.standing.good = true → RestoredAt st id saved log log'

theorem goodRestored_error (saved : Payload) (log₀ : Log (kernelSig Λ)) (e : Exc) (w : World Λ)
    (log : Log (kernelSig Λ)) : GoodRestored st id saved log₀ (.error e) w log :=
  fun _ h => by cases h

/-- A receipt that is not good says nothing. -/
theorem post_recordNew_bad {saved : Payload} {log₀ : Log (kernelSig Λ)} {receipt : Receipt}
    (h : receipt.standing.good = false) :
    post A (GoodRestored st id saved log₀) (recordNew rt receipt) w log := by
  rw [post_recordNew]
  refine ⟨fun _ _ => goodRestored_error _ _ _ _ _, fun L _ r hr hgood => ?_⟩
  cases hr
  exact absurd (h.symm.trans hgood) Bool.false_ne_true

theorem post_recordNew_good {saved : Payload} {log₀ : Log (kernelSig Λ)} {receipt : Receipt}
    (h : RestoredAt st id saved log₀ log) :
    post A (GoodRestored st id saved log₀) (recordNew rt receipt) w log := by
  rw [post_recordNew]
  exact ⟨fun _ _ => goodRestored_error _ _ _ _ _, fun L _ _ _ _ => h⟩

theorem post_restoreAdmitted {saved : Payload} {log₀ : Log (kernelSig Λ)}
    {authorityRef : Option String} {before : Observation} {authority : AuthorityDecision}
    (hlog : ∃ more, log = log₀ ++ more) :
    post A (GoodRestored st id saved log₀)
      (restoreAdmitted rt id saved authorityRef st before authority) w log := by
  obtain ⟨more, rfl⟩ := hlog
  have hblocked : ∀ (exc : Exc) w' (log' : Log (kernelSig Λ)),
      post A (GoodRestored st id saved log₀) (do
        let after ← observeOr rt st before
        let errorDigest ← errorDigest rt exc
        recordNew rt { restoreReceipt id authorityRef st before after .blocked with
          authorityEvidenceRef := authority.evidenceRef, errorDigest, reason := some exc.reason })
        w' log' := fun exc w' log' =>
    post_bind_any (fun after w' log' => post_bind_any (fun _ w' log' => post_recordNew_bad rfl)
      fun _ _ _ => goodRestored_error _ _ _ _ _) fun _ _ _ => goodRestored_error _ _ _ _ _
  rw [restoreAdmitted, post_bind, post_attempt, restoreAndObserve, post_bind]
  refine kernel_post_bounded.mpr fun r _ => ?_
  rcases r with e | ⟨⟩
  · cases e <;> exact hblocked _ _ _
  · rw [settle, post_onOk, post_observeUnlocked]
    intro r _
    rcases look rt st r with e | after
    · exact hblocked _ _ _
    · exact post_recordNew_good ⟨more, [⟨.observe st.environment, r⟩], by simp, by simp [Looks]⟩

/-- A good receipt of a restore is of one the environment did. -/
theorem post_restore (hst : w.episodes id = some st) (saved : Payload)
    (authorityRef : Option String) :
    post A (GoodRestored st id saved log) (restore rt id saved authorityRef) w log := by
  rw [restore, post_bind, state, post_bind, post_getState, post_onOk, hst, post_pure, post_onOk,
    post_withLock, restoreLocked, post_bind, post_observeUnlocked]
  intro r _
  rcases look rt st r with e | before
  · exact goodRestored_error _ _ _ _ _
  rw [post_onOk]
  rcases ensureCheckpoint rt (.dict saved) with e | ⟨⟩
  · cases e with
    | boundaryBlocked code => exact post_recordNew_bad rfl
    | _ => exact goodRestored_error _ _ _ _ _
  rw [restoreAuthorized, post_bind, digest, post_lift]
  rcases rt.canon.digest (.dict saved) with e | d
  · exact goodRestored_error _ _ _ _ _
  rw [Except.mapError, post_onOk, post_bind, post_attempt]
  have hdecided : ∀ (authority : AuthorityDecision) (log' : Log (kernelSig Λ)),
      (∃ more, log' = log ++ more) → post A (GoodRestored st id saved log)
        (if authority.admitted then restoreAdmitted rt id saved authorityRef st before authority
          else recordNew rt { restoreReceipt id authorityRef st before before .refused with
            authorityEvidenceRef := authority.evidenceRef, reason := some authority.reason })
        w log' := by
    intro authority log' hlog
    split
    · exact post_restoreAdmitted hlog
    · exact post_recordNew_bad rfl
  refine post_authorityDecision
    (fun _ => hdecided { admitted := true, reason := "AUTHORITY_NOT_REQUIRED" } _ ⟨_, rfl⟩)
    (fun _ _ => goodRestored_error _ _ _ _ _) fun _ _ r _ => ?_
  rcases r with e | authority
  · cases e with
    | timeout => exact post_recordNew_bad rfl
    | raised e => exact goodRestored_error _ _ _ _ _
  · exact hdecided authority _ ⟨_, List.append_assoc _ _ _⟩

end Rollback

/-! ## The kernel along the calls of a session -/

section Along

variable {rt : Runtime Λ} {κ : Oracle (kernelSig Λ)} {k : KernelAt Λ} {calls : Log harnessSig}

theorem served_log (rt : Runtime Λ) (κ : Oracle (kernelSig Λ)) (calls : Log harnessSig) :
    ∀ k : KernelAt Λ, ∃ more, (served rt κ k calls).2 = k.2 ++ more := by
  induction calls with
  | nil => exact fun k => ⟨[], (List.append_nil _).symm⟩
  | cons e calls ih =>
    intro k
    obtain ⟨first, hfirst⟩ := exec_log κ (e.1.program rt) k.1 k.2
    obtain ⟨more, hmore⟩ := ih (exec κ (e.1.program rt) k.1 k.2).2
    exact ⟨first ++ more, by rw [served_cons, hmore, hfirst, List.append_assoc]⟩

/-- Calls on an episode leave the episodes of the kernel as they are. -/
theorem served_episodes (hC : rt.canon.Total) (h : ∀ e ∈ calls, e.1.onEpisode = true) :
    ∀ k : KernelAt Λ, (served rt κ k calls).1.episodes = k.1.episodes := by
  induction calls with
  | nil => exact fun k => rfl
  | cons e calls ih =>
    intro k
    obtain ⟨he, hcalls⟩ := List.forall_mem_cons.mp h
    have hepisodes : Keeps (fun _ _ => True) (EpisodesAre k.1.episodes fun _ => True)
        (e.1.program rt) := keeps_onEpisode hC he
    have hkeeps := exec_of_post (fun _ _ => trivial) _ (hepisodes k.1 k.2 ⟨rfl, trivial⟩) (ω := κ)
    rw [served_cons, ih hcalls, hkeeps.1]

variable {env : Environment} {W : Type}

/-- Looking at an episode leaves its environment as it is. -/
theorem served_state (E : FaithfulEnvironment κ env W) (h : ∀ e ∈ calls, e.1.looks = true) :
    ∀ k : KernelAt Λ, E.state (served rt κ k calls).2 = E.state k.2 := by
  induction calls with
  | nil => exact fun k => rfl
  | cons e calls ih =>
    intro k
    obtain ⟨he, hcalls⟩ := List.forall_mem_cons.mp h
    have hF : ∀ (log : Log (kernelSig Λ)) c r, Looks c → E.state log = E.state k.2 →
        E.state (log ++ [⟨c, r⟩]) = E.state k.2 := fun log c r hc h => (E.looks log c r hc).trans h
    have hlooks : Keeps (fun _ _ => True)
        (EpisodesAre k.1.episodes fun log => E.state log = E.state k.2) (e.1.program rt) :=
      keeps_looks hF he
    have hkeeps := exec_of_post (fun _ _ => trivial) _ (hlooks k.1 k.2 ⟨rfl, rfl⟩) (ω := κ)
    rw [served_cons, ih hcalls, hkeeps.2]

/-- A checkpoint is one the environment took. -/
theorem checkpoint_taken {id : String} {st : EpisodeState} (hst : k.1.episodes id = some st)
    {saved : Payload} (h : (exec κ (checkpoint rt id) k.1 k.2).1 = .ok saved) :
    (exec κ (checkpoint rt id) k.1 k.2).2.2 = k.2 ++ ⟨.checkpoint st.environment, .ok saved⟩ :: [] ∧
      κ k.2 (.checkpoint st.environment) = .ok saved := by
  have hlog := exec_of_post (fun _ _ => trivial) _ (post_checkpoint (A := fun _ _ => True) hst)
    (ω := κ) saved h
  exact ⟨hlog, (eq_of_heq (Sigma.mk.inj (exec_head κ _ hlog)).2).symm⟩

/-- A good receipt of a restore is of one the environment did. -/
theorem restore_done {id : String} {st : EpisodeState} (hst : k.1.episodes id = some st)
    {saved : Payload} {authorityRef : Option String} {receipt : Receipt}
    (h : (exec κ (restore rt id saved authorityRef) k.1 k.2).1 = .ok receipt)
    (hgood : receipt.standing.good = true) :
    ∃ mid rest, (exec κ (restore rt id saved authorityRef) k.1 k.2).2.2 =
        k.2 ++ (mid ++ ⟨.restore (.restore id) st.environment saved, .ok ()⟩ :: rest) ∧
      (∀ e ∈ rest, Looks e.1) ∧
        κ (k.2 ++ mid) (.restore (.restore id) st.environment saved) = .ok () := by
  obtain ⟨mid, rest, hlog, hrest⟩ := exec_of_post (fun _ _ => trivial) _
    (post_restore (A := fun _ _ => True) hst saved authorityRef) (ω := κ) receipt h hgood
  exact ⟨mid, rest, hlog, hrest, (eq_of_heq (Sigma.mk.inj (exec_answers κ _ mid hlog)).2).symm⟩

/-- A checkpoint that is restored with a good receipt : the environment is in the state the
checkpoint was taken in, whatever was called in between. -/
theorem state_of_rollback (hC : rt.canon.Total) {id : String} {st : EpisodeState}
    (hst : k.1.episodes id = some st) (E : FaithfulEnvironment κ st.environment W)
    {pre mid rest : Log harnessSig} {saved : Payload} {authorityRef : Option String}
    {receipt : Receipt} (hpre : ∀ e ∈ pre, e.1.looks = true) (hmid : ∀ e ∈ mid, e.1.onEpisode = true)
    (hrest : ∀ e ∈ rest, e.1.looks = true) (hgood : receipt.standing.good = true)
    (hcheckpoint : kernelRuntime rt κ k pre (.checkpoint id) = .ok saved)
    (hrestore : kernelRuntime rt κ k (pre ++ ⟨.checkpoint id, .ok saved⟩ :: mid)
      (.restore id saved authorityRef) = .ok receipt) :
    E.state (served rt κ k (pre ++ ⟨.checkpoint id, .ok saved⟩ :: mid ++
      ⟨.restore id saved authorityRef, .ok receipt⟩ :: rest)).2 = E.state k.2 := by
  have hepisodes : (served rt κ k pre).1.episodes id = some st := by
    rw [served_episodes hC fun e he => RuntimeCall.onEpisode_of_looks (hpre e he)]
    exact hst
  have hepisodes' : (served rt κ k (pre ++ ⟨.checkpoint id, .ok saved⟩ :: mid)).1.episodes id =
      some st := by
    rw [served_append, served_episodes hC (List.forall_mem_cons.mpr ⟨rfl, hmid⟩)]
    exact hepisodes
  obtain ⟨htaken, hanswer⟩ := checkpoint_taken hepisodes hcheckpoint
  obtain ⟨before, after, hlog, hafter, hdone⟩ := restore_done hepisodes' hrestore hgood
  obtain ⟨more, hmore⟩ := served_log rt κ mid
    (exec κ (checkpoint rt id) (served rt κ k pre).1 (served rt κ k pre).2).2
  have hbetween : (served rt κ k (pre ++ ⟨.checkpoint id, .ok saved⟩ :: mid)).2 =
      (served rt κ k pre).2 ++ ⟨.checkpoint st.environment, .ok saved⟩ :: more := by
    rw [served_append, served_cons]
    exact hmore.trans (by rw [htaken, List.append_assoc]; rfl)
  rw [hbetween] at hdone
  have hrestored := E.restores (served rt κ k pre).2 (more ++ before) _ saved hanswer
    (by simpa using hdone)
  calc E.state (served rt κ k (pre ++ ⟨.checkpoint id, .ok saved⟩ :: mid ++
        ⟨.restore id saved authorityRef, .ok receipt⟩ :: rest)).2
      = E.state ((served rt κ k pre).2 ++ ⟨.checkpoint st.environment, .ok saved⟩ ::
          (more ++ before) ++ [⟨.restore (.restore id) st.environment saved, .ok ()⟩] ++ after) := by
        rw [served_append, served_cons, served_state E hrest]
        refine congrArg E.state (hlog.trans ?_)
        rw [hbetween]
        simp
    _ = E.state (served rt κ k pre).2 := (E.state_looks after _ hafter).trans hrestored
    _ = E.state k.2 := served_state E hpre k

end Along

end GymAct
