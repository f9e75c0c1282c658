import GymAct.Coop
import Mathlib.Data.Set.BooleanAlgebra
import Mathlib.Order.CompletePartialOrder

/-!
# Schedules of cooperative programs

Many tasks over one shared state, each a program of `Coop`. One scheduling of a task
runs it to its next suspension (`Config.step`); a schedule is any list of task names,
and the outside answers every call with sight of the whole history.

`wp` is the weakest precondition of a program under interference, relative to a
`Discipline` : a global invariant, a resource that each lock protects, and a rely
relation that says what the others may change while some locks are held. The
obligations stand at the suspensions only, since nobody else runs in between. A
discipline that every task's program meets is an invariant of every schedule
(`Sound.run`).
-/

namespace Coop

variable {S : Sig} {α β : Type}

open Prog

/-! ## Histories and configurations -/

/-- What happens in a run, with the task it happens in. -/
inductive Event (S : Sig) (α : Type)
  | start (t : ℕ)
  | asked (t : ℕ) (c : S.Call) (r : S.Reply c)
  | call (t : ℕ) (c : S.Call)
  | reply (t : ℕ) (c : S.Call) (r : S.Reply c)
  | grant (t : ℕ) (l : S.Lock)
  | finish (t : ℕ) (r : Except S.Err α)

/-- The task an event happens in. -/
def Event.task : Event S α → ℕ
  | start t => t
  | asked t _ _ => t
  | call t _ => t
  | reply t _ _ => t
  | grant t _ => t
  | finish t _ => t

/-- The shared state with everything that happened so far, in order. -/
structure Store (S : Sig) (α : Type) where
  state : S.State
  history : List (Event S α)

/-- Record an event. -/
def Store.log (s : Store S α) (e : Event S α) : Store S α :=
  { s with history := s.history ++ [e] }

@[simp] theorem Store.log_state (s : Store S α) (e : Event S α) : (s.log e).state = s.state := rfl

@[simp] theorem Store.log_history (s : Store S α) (e : Event S α) :
    (s.log e).history = s.history ++ [e] := rfl

/-- What the others did : more history, none of it of task `t`. -/
def Elsewhere (t : ℕ) (s s' : Store S α) : Prop :=
  ∃ more, s'.history = s.history ++ more ∧ ∀ e ∈ more, e.task ≠ t

theorem Elsewhere.refl (t : ℕ) (s : Store S α) : Elsewhere t s s := ⟨[], by simp⟩

theorem Elsewhere.trans {t : ℕ} {s s' s'' : Store S α} (h : Elsewhere t s s')
    (h' : Elsewhere t s' s'') : Elsewhere t s s'' := by
  obtain ⟨a, ha, hat⟩ := h
  obtain ⟨b, hb, hbt⟩ := h'
  refine ⟨a ++ b, by rw [hb, ha, List.append_assoc], fun e he => ?_⟩
  exact (List.mem_append.mp he).elim (hat e) (hbt e)

/-- `P` holds at every event of a history, of what happened before it. -/
def AtEvent (P : List (Event S α) → Event S α → Prop) (history : List (Event S α)) : Prop :=
  ∀ before e after, history = before ++ e :: after → P before e

section AtEvent

variable {P : List (Event S α) → Event S α → Prop} {history : List (Event S α)}

theorem AtEvent.nil : AtEvent P [] := by
  intro before e after h
  exact absurd (congrArg List.length h) (by simp)

theorem AtEvent.snoc {e : Event S α} (h : AtEvent P history) (he : P history e) :
    AtEvent P (history ++ [e]) := by
  intro before e' after hb
  rcases List.append_eq_append_iff.mp hb with ⟨a, hp, hr⟩ | ⟨a, hp, hr⟩
  · cases a with
    | nil =>
      obtain ⟨rfl, -⟩ := List.cons.inj hr
      rwa [hp, List.append_nil]
    | cons x a => exact absurd (congrArg List.length hr) (by simp)
  · cases a with
    | nil =>
      obtain ⟨rfl, -⟩ := List.cons.inj hr
      rw [List.append_nil] at hp
      exact hp ▸ he
    | cons x a =>
      obtain ⟨rfl, -⟩ := List.cons.inj hr
      exact h before e' a hp

end AtEvent

/-- `P` holds at every finish. -/
def AtFinish (P : List (Event S α) → ℕ → Except S.Err α → Prop) (history : List (Event S α)) :
    Prop :=
  ∀ before t r after, history = before ++ .finish t r :: after → P before t r

section AtFinish

variable {P : List (Event S α) → ℕ → Except S.Err α → Prop} {history : List (Event S α)}

theorem atFinish_iff :
    AtFinish P history ↔ AtEvent (fun before e => ∀ t r, e = .finish t r → P before t r) history :=
  ⟨fun h before _ after hb t r he => h before t r after (he ▸ hb),
    fun h before t r after hb => h before _ after hb t r rfl⟩

theorem AtFinish.nil : AtFinish P [] := atFinish_iff.mpr AtEvent.nil

/-- One more event is one more finish at most. -/
theorem AtFinish.snoc {e : Event S α} (h : AtFinish P history)
    (he : ∀ t r, e = .finish t r → P history t r) : AtFinish P (history ++ [e]) :=
  atFinish_iff.mpr ((atFinish_iff.mp h).snoc he)

end AtFinish

/-- Where a task stands. -/
inductive Task (S : Sig) (α : Type)
  | ready (p : Prog S α)
  | awaiting (c : S.Call) (k : S.Reply c → Prog S α)
  | waiting (l : S.Lock) (k : Prog S α)
  | done

structure Config (S : Sig) (α : Type) where
  store : Store S α
  /-- The task that holds a lock. -/
  holder : S.Lock → Option ℕ
  tasks : ℕ → Task S α

/-- The outside : an answer to every call, chosen with sight of the history. -/
abbrev Outside (S : Sig) (α : Type) := List (Event S α) → (c : S.Call) → S.Reply c

variable [DecidableEq S.Lock]

/-- Run task `t` to its next suspension. -/
def segment (ω : Outside S α) (t : ℕ) :
    Prog S α → Store S α → (S.Lock → Option ℕ) → Store S α × (S.Lock → Option ℕ) × Task S α
  | .ret r, s, h => (s.log (.finish t r), h, .done)
  | .get k, s, h => segment ω t (k s.state) s h
  | .put w k, s, h => segment ω t k { s with state := w } h
  | .ask c k, s, h =>
    segment ω t (k (ω s.history c)) (s.log (.asked t c (ω s.history c))) h
  | .await c k, s, h => (s.log (.call t c), h, .awaiting c k)
  | .acquire l k, s, h => (s, h, .waiting l k)
  | .release l k, s, h => segment ω t k s (Function.update h l none)

namespace Config

/-- Put the end of a segment of `t` back into the configuration. -/
def commit (cfg : Config S α) (t : ℕ)
    (out : Store S α × (S.Lock → Option ℕ) × Task S α) : Config S α :=
  { store := out.1, holder := out.2.1, tasks := Function.update cfg.tasks t out.2.2 }

/-- Schedule task `t`. A task that waits for a lock somebody holds, or that is done, does
nothing. -/
def step (ω : Outside S α) (cfg : Config S α) (t : ℕ) : Config S α :=
  match cfg.tasks t with
  | .ready p => cfg.commit t (segment ω t p (cfg.store.log (.start t)) cfg.holder)
  | .awaiting c k =>
    let r := ω cfg.store.history c
    cfg.commit t (segment ω t (k r) (cfg.store.log (.reply t c r)) cfg.holder)
  | .waiting l k =>
    if cfg.holder l = none then
      cfg.commit t (segment ω t k (cfg.store.log (.grant t l))
        (Function.update cfg.holder l (some t)))
    else cfg
  | .done => cfg

/-- Follow a schedule. -/
def run (ω : Outside S α) (cfg : Config S α) (schedule : List ℕ) : Config S α :=
  schedule.foldl (step ω) cfg

@[simp] theorem run_nil (ω : Outside S α) (cfg : Config S α) : cfg.run ω [] = cfg := rfl

theorem run_append (ω : Outside S α) (cfg : Config S α) (ts us : List ℕ) :
    cfg.run ω (ts ++ us) = (cfg.run ω ts).run ω us :=
  List.foldl_append

/-- Every task at its beginning, every lock free, nothing happened yet. -/
def initial (s : S.State) (programs : ℕ → Prog S α) : Config S α :=
  { store := ⟨s, []⟩, holder := fun _ => none, tasks := fun t => .ready (programs t) }

/-- The locks task `t` holds. -/
def owned (cfg : Config S α) (t : ℕ) : Set S.Lock := { l | cfg.holder l = some t }

end Config

/-! ## Disciplines -/

/-- What the tasks owe each other. -/
structure Discipline (S : Sig) (α : Type) where
  /-- Holds at every suspension. -/
  inv : Store S α → Prop
  /-- Holds of what a lock protects whenever the lock is free. -/
  own : S.Lock → Store S α → Prop
  /-- What the others may do while the locks of the set are held. -/
  rely : Set S.Lock → Store S α → Store S α → Prop
  /-- The grants of a lock to a task that are considered. -/
  admits : ℕ → S.Lock → Store S α → Prop
  /-- The outcomes of a task after which nothing is promised. -/
  fault : ℕ → Except S.Err α → Prop
  rely_refl : ∀ O s, rely O s s
  rely_trans : ∀ {O s s' s''}, rely O s s' → rely O s' s'' → rely O s s''
  own_stable : ∀ {O l s s'}, l ∈ O → rely O s s' → own l s → own l s'

namespace Discipline

variable (D : Discipline S α)

/-- A segment from `s₀` that held the locks `Os` may stop at `s₁` holding `O`. -/
structure Pause (Os O : Set S.Lock) (s₀ s₁ : Store S α) : Prop where
  inv : D.inv s₁
  rely : ∀ O', Disjoint O' Os → D.rely O' s₀ s₁
  own : ∀ l ∈ Os, l ∉ O → D.own l s₁

omit [DecidableEq S.Lock] in
theorem Pause.mono {D : Discipline S α} {Os O : Set S.Lock} {s₀ s₁ : Store S α}
    (h : D.Pause Os O s₀ s₁) {O' : Set S.Lock} (hO : O ⊆ O') : D.Pause Os O' s₀ s₁ :=
  ⟨h.inv, h.rely, fun l hl hn => h.own l hl fun hl' => hn (hO hl')⟩

/-- The weakest precondition of a program of task `t` under interference. `O` are the
locks held now, `Os` those held when the segment began, `s₀` the store it began in. -/
def wp (t : ℕ)
    (Φ : Except S.Err β → Set S.Lock → Set S.Lock → Store S α → Store S α → Prop) :
    Prog S β → Set S.Lock → Set S.Lock → Store S α → Store S α → Prop
  | .ret r, O, Os, s₀, s => Φ r O Os s₀ s
  | .get k, O, Os, s₀, s => wp t Φ (k s.state) O Os s₀ s
  | .put w k, O, Os, s₀, s => wp t Φ k O Os s₀ { s with state := w }
  | .ask c k, O, Os, s₀, s => ∀ r, wp t Φ (k r) O Os s₀ (s.log (.asked t c r))
  | .await c k, O, Os, s₀, s =>
    D.Pause Os O s₀ (s.log (.call t c)) ∧
      ∀ s₂, D.inv s₂ → D.rely O (s.log (.call t c)) s₂ → Elsewhere t (s.log (.call t c)) s₂ →
        ∀ r, wp t Φ (k r) O O s₂ (s₂.log (.reply t c r))
  | .acquire l k, O, Os, s₀, s =>
    D.Pause Os O s₀ s ∧
      ∀ s₂, D.inv s₂ → D.rely O s s₂ → Elsewhere t s s₂ → D.own l s₂ → D.admits t l s₂ →
        wp t Φ k (insert l O) (insert l O) s₂ (s₂.log (.grant t l))
  | .release l k, O, Os, s₀, s => l ∈ O ∧ wp t Φ k (O \ {l}) Os s₀ s

/-- A task may finish where its last segment may stop. -/
def finish (t : ℕ) (r : Except S.Err α) (O Os : Set S.Lock) (s₀ s : Store S α) : Prop :=
  ¬ D.fault t r → D.Pause Os O s₀ (s.log (.finish t r))

/-! ## Rules -/

section Rules

variable {D} {t : ℕ} {O Os : Set S.Lock} {s₀ s : Store S α}
  {Φ : Except S.Err β → Set S.Lock → Set S.Lock → Store S α → Store S α → Prop}

omit [DecidableEq S.Lock]

@[simp] theorem wp_ret (r : Except S.Err β) :
    D.wp t Φ (.ret r) O Os s₀ s ↔ Φ r O Os s₀ s := Iff.rfl

@[simp] theorem wp_get (k : S.State → Prog S β) :
    D.wp t Φ (.get k) O Os s₀ s ↔ D.wp t Φ (k s.state) O Os s₀ s := Iff.rfl

@[simp] theorem wp_put (w : S.State) (k : Prog S β) :
    D.wp t Φ (.put w k) O Os s₀ s ↔ D.wp t Φ k O Os s₀ { s with state := w } := Iff.rfl

/-- Sequencing on outcomes : the rest runs in the postcondition of the beginning. -/
theorem wp_bindE {γ : Type}
    {Ψ : Except S.Err γ → Set S.Lock → Set S.Lock → Store S α → Store S α → Prop}
    (p : Prog S β) (f : Except S.Err β → Prog S γ) :
    ∀ {O Os s₀ s}, D.wp t Ψ (p.bindE f) O Os s₀ s ↔
      D.wp t (fun r O Os s₀ s => D.wp t Ψ (f r) O Os s₀ s) p O Os s₀ s := by
  induction p with
  | ret r => exact Iff.rfl
  | get k ih => exact ih _
  | put w k ih => exact ih
  | ask c k ih => exact forall_congr' fun r => ih r
  | await c k ih =>
    exact and_congr_right fun _ => forall_congr' fun s₂ => imp_congr_right fun _ =>
      imp_congr_right fun _ => imp_congr_right fun _ => forall_congr' fun r => ih r
  | acquire l k ih =>
    exact and_congr_right fun _ => forall_congr' fun s₂ => imp_congr_right fun _ =>
      imp_congr_right fun _ => imp_congr_right fun _ => imp_congr_right fun _ =>
        imp_congr_right fun _ => ih
  | release l k ih => exact and_congr_right fun _ => ih

theorem wp_mono
    {Ψ : Except S.Err β → Set S.Lock → Set S.Lock → Store S α → Store S α → Prop}
    (hΦ : ∀ r O Os s₀ s, Φ r O Os s₀ s → Ψ r O Os s₀ s) (p : Prog S β) :
    ∀ {O Os s₀ s}, D.wp t Φ p O Os s₀ s → D.wp t Ψ p O Os s₀ s := by
  induction p with
  | ret r => exact hΦ _ _ _ _ _
  | get k ih => exact ih _
  | put w k ih => exact ih
  | ask c k ih => exact fun h r => ih r (h r)
  | await c k ih => exact fun h => ⟨h.1, fun s₂ hi hr he r => ih r (h.2 s₂ hi hr he r)⟩
  | acquire l k ih => exact fun h => ⟨h.1, fun s₂ hi hr he ho ha => ih (h.2 s₂ hi hr he ho ha)⟩
  | release l k ih => exact fun h => ⟨h.1, ih h.2⟩

@[simp] theorem wp_bind {γ : Type}
    {Ψ : Except S.Err γ → Set S.Lock → Set S.Lock → Store S α → Store S α → Prop}
    (p : Prog S β) (f : β → Prog S γ) :
    D.wp t Ψ (p >>= f) O Os s₀ s ↔
      D.wp t (fun r O Os s₀ s => D.wp t Ψ (onOk f r) O Os s₀ s) p O Os s₀ s :=
  wp_bindE p (onOk f)

@[simp] theorem wp_pure (a : β) :
    D.wp t Φ (pure a : Prog S β) O Os s₀ s ↔ Φ (.ok a) O Os s₀ s := Iff.rfl

@[simp] theorem wp_raise (e : S.Err) :
    D.wp t Φ (raise e : Prog S β) O Os s₀ s ↔ Φ (.error e) O Os s₀ s := Iff.rfl

@[simp] theorem wp_lift (r : Except S.Err β) :
    D.wp t Φ (Prog.lift r) O Os s₀ s ↔ Φ r O Os s₀ s := Iff.rfl

@[simp] theorem wp_onOk {γ : Type}
    {Ψ : Except S.Err γ → Set S.Lock → Set S.Lock → Store S α → Store S α → Prop}
    (f : β → Prog S γ) (b : β) :
    D.wp t Ψ (onOk f (no_index (.ok b))) O Os s₀ s ↔ D.wp t Ψ (f b) O Os s₀ s := Iff.rfl

@[simp] theorem wp_onOk_error {γ : Type}
    {Ψ : Except S.Err γ → Set S.Lock → Set S.Lock → Store S α → Store S α → Prop}
    (f : β → Prog S γ) (e : S.Err) :
    D.wp t Ψ (onOk f (no_index (.error e))) O Os s₀ s ↔ Ψ (.error e) O Os s₀ s := Iff.rfl

@[simp] theorem wp_attempt
    {Ψ : Except S.Err (Except S.Err β) → Set S.Lock → Set S.Lock → Store S α → Store S α → Prop}
    (p : Prog S β) :
    @wp S α (no_index (Except S.Err β)) D t Ψ (attempt p) O Os s₀ s ↔
      D.wp t (fun r O Os s₀ s => Ψ (.ok r) O Os s₀ s) p O Os s₀ s :=
  wp_bindE p _

/-- Under a lock nobody of the task's holds yet, the resource of the lock is there at the
start and the lock is given back at the end. -/
theorem wp_withLock (l : S.Lock) (p : Prog S β) :
    D.wp t Φ (withLock l p) O Os s₀ s ↔ D.Pause Os O s₀ s ∧
      ∀ s₂, D.inv s₂ → D.rely O s s₂ → Elsewhere t s s₂ → D.own l s₂ → D.admits t l s₂ →
        D.wp t (fun r O Os s₀ s => l ∈ O ∧ Φ r (O \ {l}) Os s₀ s) p (insert l O) (insert l O) s₂
          (s₂.log (.grant t l)) := by
  refine and_congr_right fun _ => forall_congr' fun s₂ => imp_congr_right fun _ =>
    imp_congr_right fun _ => imp_congr_right fun _ => imp_congr_right fun _ =>
      imp_congr_right fun _ => ?_
  exact wp_bindE p _

@[simp] theorem wp_map {γ : Type}
    {Ψ : Except S.Err γ → Set S.Lock → Set S.Lock → Store S α → Store S α → Prop}
    (p : Prog S β) (f : β → γ) :
    D.wp t Ψ (f <$> p) O Os s₀ s ↔
      D.wp t (fun r O Os s₀ s => Ψ (r.map f) O Os s₀ s) p O Os s₀ s := by
  refine (wp_bindE p _).trans
    ⟨wp_mono (fun r O Os s₀ s h => ?_) p, wp_mono (fun r O Os s₀ s h => ?_) p⟩
  all_goals cases r <;> exact h

@[simp] theorem wp_getState
    {Ψ : Except S.Err S.State → Set S.Lock → Set S.Lock → Store S α → Store S α → Prop} :
    @wp S α (no_index S.State) D t Ψ getState O Os s₀ s ↔ Ψ (.ok s.state) O Os s₀ s := Iff.rfl

@[simp] theorem wp_modify
    {Ψ : Except S.Err Unit → Set S.Lock → Set S.Lock → Store S α → Store S α → Prop}
    (f : S.State → S.State) :
    D.wp t Ψ (Prog.modify f) O Os s₀ s ↔ Ψ (.ok ()) O Os s₀ { s with state := f s.state } :=
  Iff.rfl

@[simp] theorem wp_askCall (c : S.Call)
    {Ψ : Except S.Err (S.Reply c) → Set S.Lock → Set S.Lock → Store S α → Store S α → Prop} :
    @wp S α (no_index (S.Reply c)) D t Ψ (askCall c) O Os s₀ s ↔ ∀ r, Ψ (.ok r) O Os s₀ (s.log (.asked t c r)) := Iff.rfl

theorem wp_awaitCall (c : S.Call)
    {Ψ : Except S.Err (S.Reply c) → Set S.Lock → Set S.Lock → Store S α → Store S α → Prop} :
    D.wp t Ψ (awaitCall c) O Os s₀ s ↔ D.Pause Os O s₀ (s.log (.call t c)) ∧
      ∀ s₂, D.inv s₂ → D.rely O (s.log (.call t c)) s₂ → Elsewhere t (s.log (.call t c)) s₂ →
        ∀ r, Ψ (.ok r) O O s₂ (s₂.log (.reply t c r)) := Iff.rfl

end Rules

/-! ## Calm programs -/

omit [DecidableEq S.Lock] in
theorem Pause.trans {D : Discipline S α} {Os O O' : Set S.Lock} {s s' s'' : Store S α}
    (h : D.Pause Os O s s') (h' : D.Pause Os O' s' s'') : D.Pause Os O' s s'' :=
  ⟨h'.inv, fun O'' hd => D.rely_trans (h.rely O'' hd) (h'.rely O'' hd), h'.own⟩

/-- A change that keeps the invariant and disturbs nobody. -/
def CalmStep (s s' : Store S α) : Prop := D.inv s' ∧ ∀ O, D.rely O s s'

/-- An event that is always such a change. -/
def CalmEvent (e : Event S α) : Prop := ∀ s, D.inv s → D.CalmStep s (s.log e)

/-- A change of the state that always is. -/
def CalmUpdate (f : S.State → S.State) : Prop :=
  ∀ s, D.inv s → D.CalmStep s { s with state := f s.state }

/-- An event that is such a change where `P` holds, and keeps `P`. -/
def CalmEventIn (P : Store S α → Prop) (e : Event S α) : Prop :=
  ∀ s, D.inv s → P s → D.CalmStep s (s.log e) ∧ P (s.log e)

/-- A change of the state that is one where `P` holds, and keeps `P`. -/
def CalmUpdateIn (P : Store S α → Prop) (f : S.State → S.State) : Prop :=
  ∀ s, D.inv s → P s → D.CalmStep s { s with state := f s.state } ∧ P { s with state := f s.state }

/-- The others leave `P` alone while task `t` holds `O`. -/
def Stable (t : ℕ) (O : Set S.Lock) (P : Store S α → Prop) : Prop :=
  ∀ s s', D.inv s' → D.rely O s s' → Elsewhere t s s' → P s → P s'

/-- A program of task `t` that holds `O` and could give back every lock anywhere, begun
and ended where `P` holds. -/
def Calm (t : ℕ) (O : Set S.Lock) (P : Store S α → Prop) (p : Prog S β) : Prop :=
  ∀ Os s₀ s, O ⊆ Os → D.Pause Os ∅ s₀ s → P s →
    D.wp t (fun _ O' Os' s₀ s => O' = O ∧ O ⊆ Os' ∧ D.Pause Os' ∅ s₀ s ∧ P s) p O Os s₀ s

section Calm

variable {D} {t : ℕ} {O : Set S.Lock} {P : Store S α → Prop}

omit [DecidableEq S.Lock]

theorem Pause.refl {Os N : Set S.Lock} {s : Store S α} (hi : D.inv s)
    (ho : ∀ l ∈ Os, l ∉ N → D.own l s) : D.Pause Os N s s :=
  ⟨hi, fun _ _ => D.rely_refl _ _, ho⟩

theorem Pause.calm {Os N : Set S.Lock} {s₀ s s' : Store S α} (h : D.Pause Os N s₀ s)
    (hs : D.CalmStep s s') : D.Pause Os N s₀ s' :=
  ⟨hs.1, fun O' hd => D.rely_trans (h.rely O' hd) (hs.2 O'), fun l hl hn =>
    D.own_stable (Set.mem_singleton l) (hs.2 {l}) (h.own l hl hn)⟩

theorem Pause.event {Os N : Set S.Lock} {s₀ s : Store S α} {e : Event S α}
    (h : D.Pause Os N s₀ s) (he : D.CalmEvent e) : D.Pause Os N s₀ (s.log e) :=
  h.calm (he s h.inv)

/-- What the others leave of a pause, for the segment that follows. -/
theorem Pause.resume {Os N : Set S.Lock} {s₀ s s₂ : Store S α} (h : D.Pause Os N s₀ s)
    (hO : O ⊆ Os) (hi : D.inv s₂) (hr : D.rely O s s₂) : D.Pause O N s₂ s₂ :=
  Pause.refl hi fun l hl hn => D.own_stable hl hr (h.own l (hO hl) hn)

/-- An event of task `t` about a call of `G`. -/
def Asks (t : ℕ) (G : S.Call → Prop) : Event S α → Prop
  | .asked t' c _ => t' = t ∧ G c
  | .call t' c => t' = t ∧ G c
  | .reply t' c _ => t' = t ∧ G c
  | _ => False

theorem CalmEvent.inTrue {e : Event S α} (h : D.CalmEvent e) :
    D.CalmEventIn (fun _ => True) e :=
  fun s hi _ => ⟨h s hi, trivial⟩

theorem CalmUpdate.inTrue {f : S.State → S.State} (h : D.CalmUpdate f) :
    D.CalmUpdateIn (fun _ => True) f :=
  fun s hi _ => ⟨h s hi, trivial⟩

theorem Stable.true : D.Stable t O fun _ => True := fun _ _ _ _ _ _ => trivial

/-- A program that asks first calmly, from an assertion `P` that its events keep and that
the others leave alone while `O` is held. `N` are the locks it could not give back. -/
theorem wp_of_leads {G : S.Call → Prop} {Tail : Prog S β → Prop}
    {Φ : Except S.Err β → Set S.Lock → Set S.Lock → Store S α → Store S α → Prop}
    {N : Set S.Lock} (hN : N ⊆ O) (hG : ∀ e, Asks t G e → D.CalmEventIn P e)
    (hstable : D.Stable t O P)
    (htail : ∀ q Os s₀ s, O ⊆ Os → D.Pause Os N s₀ s → P s → Tail q → D.wp t Φ q O Os s₀ s)
    {p : Prog S β} (hp : Leads (fun _ _ => True) G Tail p) :
    ∀ {Os s₀ s}, O ⊆ Os → D.Pause Os N s₀ s → P s → D.wp t Φ p O Os s₀ s := by
  induction hp with
  | tail h => exact fun hO hs hPs => htail _ _ _ _ hO hs hPs h
  | @ask c k hc _ ih =>
    intro Os s₀ s hO hs hPs r
    obtain ⟨hcalm, hP⟩ := hG (.asked t c r) ⟨rfl, hc⟩ s hs.inv hPs
    exact ih r trivial hO (hs.calm hcalm) hP
  | @await c k hc _ ih =>
    intro Os s₀ s hO hs hPs
    obtain ⟨hcalm, hP⟩ := hG (.call t c) ⟨rfl, hc⟩ s hs.inv hPs
    refine ⟨(hs.calm hcalm).mono hN, fun s₂ hi hr he r => ?_⟩
    obtain ⟨hcalm', hP'⟩ := hG (.reply t c r) ⟨rfl, hc⟩ s₂ hi (hstable _ _ hi hr he hP)
    exact ih r trivial (Set.Subset.refl O) (((hs.calm hcalm).resume hO hi hr).calm hcalm') hP'

theorem Calm.pure (a : β) : D.Calm t O P (pure a : Prog S β) := fun _ _ _ hO h hP => ⟨rfl, hO, h, hP⟩

theorem Calm.raise (e : S.Err) : D.Calm t O P (raise e : Prog S β) :=
  fun _ _ _ hO h hP => ⟨rfl, hO, h, hP⟩

theorem Calm.lift (r : Except S.Err β) : D.Calm t O P (Prog.lift r) :=
  fun _ _ _ hO h hP => ⟨rfl, hO, h, hP⟩

theorem Calm.getState : D.Calm t O P (getState : Prog S S.State) :=
  fun _ _ _ hO h hP => ⟨rfl, hO, h, hP⟩

theorem Calm.bindE {γ : Type} {p : Prog S β} {f : Except S.Err β → Prog S γ}
    (hp : D.Calm t O P p) (hf : ∀ r, D.Calm t O P (f r)) : D.Calm t O P (p.bindE f) := by
  intro Os s₀ s hO h hP
  rw [wp_bindE]
  refine wp_mono (fun r O' Os' s₀ s h => ?_) p (hp Os s₀ s hO h hP)
  obtain ⟨rfl, hO', h, hP⟩ := h
  exact hf r Os' s₀ s hO' h hP

theorem Calm.bind {γ : Type} {p : Prog S β} {f : β → Prog S γ} (hp : D.Calm t O P p)
    (hf : ∀ a, D.Calm t O P (f a)) : D.Calm t O P (p >>= f) :=
  hp.bindE fun r => by
    cases r with
    | ok a => exact hf a
    | error e => exact Calm.raise e

theorem Calm.map {γ : Type} {p : Prog S β} (hp : D.Calm t O P p) (f : β → γ) :
    D.Calm t O P (f <$> p) :=
  hp.bind fun a => Calm.pure (f a)

theorem Calm.modify {f : S.State → S.State} (hf : D.CalmUpdateIn P f) :
    D.Calm t O P (Prog.modify f) :=
  fun _ _ s hO h hP => ⟨rfl, hO, h.calm (hf s h.inv hP).1, (hf s h.inv hP).2⟩

/-- A calm program that asks first, and calm tails. -/
theorem Calm.leads {G : S.Call → Prop} {Tail : Prog S β → Prop} {p : Prog S β}
    (hp : Leads (fun _ _ => True) G Tail p) (hG : ∀ e, Asks t G e → D.CalmEventIn P e)
    (hstable : D.Stable t O P) (htail : ∀ q, Tail q → D.Calm t O P q) : D.Calm t O P p :=
  fun _ _ _ hO h hP => wp_of_leads (Set.empty_subset O) hG hstable
    (fun q _ _ _ hO h hP ht => htail q ht _ _ _ hO h hP) hp hO h hP

theorem insert_diff_self {l : S.Lock} (hl : l ∉ O) : insert l O \ {l} = O :=
  Set.ext fun _ => ⟨fun h => (Set.mem_insert_iff.mp h.1).resolve_left h.2,
    fun h => ⟨Set.mem_insert_of_mem l h, fun e => hl (e ▸ h)⟩⟩

/-- A calm body under a lock that is not held yet, from what an admitted grant
establishes. -/
theorem Calm.withLock {l : S.Lock} {p : Prog S β} (hl : l ∉ O)
    (hg : D.CalmEvent (.grant t l))
    (hP : ∀ s, D.inv s → D.admits t l s → P (s.log (.grant t l)))
    (hp : D.Calm t (insert l O) P p) : D.Calm t O (fun _ => True) (withLock l p) := by
  intro Os s₀ s hO h _
  rw [wp_withLock]
  refine ⟨h.mono (Set.empty_subset O), fun s₂ hi hr _ hown hadm => ?_⟩
  have hs₂ : D.Pause (insert l O) ∅ s₂ s₂ := by
    refine Pause.refl hi fun l' hl' hn => ?_
    rcases Set.mem_insert_iff.mp hl' with rfl | hl'
    · exact hown
    · exact (h.resume hO hi hr).own l' hl' hn
  refine wp_mono (fun r O' Os' s₀ s h => ?_) p
    (hp _ _ _ (Set.Subset.refl _) (hs₂.event hg) (hP s₂ hi hadm))
  obtain ⟨rfl, hO', h, -⟩ := h
  exact ⟨Set.mem_insert l O, insert_diff_self hl, (Set.subset_insert l O).trans hO', h, trivial⟩

/-- A calm program that begins and ends calmly meets the discipline. -/
theorem Calm.finish {p : Prog S α} (hp : D.Calm t ∅ (fun _ => True) p)
    (hs : D.CalmEvent (.start t)) (hf : ∀ r, D.CalmEvent (.finish t r)) {s : Store S α}
    (hi : D.inv s) : D.wp t (D.finish t) p ∅ ∅ s (s.log (.start t)) := by
  have hs₀ : D.Pause ∅ ∅ s s := Pause.refl hi fun l hl => absurd hl (Set.notMem_empty l)
  refine wp_mono (fun r O Os s₀ s h => ?_) p
    (hp ∅ _ _ (Set.Subset.refl _) (hs₀.event hs) trivial)
  obtain ⟨rfl, -, h, -⟩ := h
  exact fun _ => h.event (hf r)

end Calm

/-! ## Soundness -/

/-- What the configuration owes a task that holds the locks `O`. -/
def TaskOk (t : ℕ) (O : Set S.Lock) (s : Store S α) : Task S α → Prop
  | .ready p => ∀ s₂, D.inv s₂ → (∀ e ∈ s₂.history, e.task ≠ t) →
      D.wp t (D.finish t) p ∅ ∅ s₂ (s₂.log (.start t))
  | .awaiting c k => ∀ s₂, D.inv s₂ → D.rely O s s₂ → Elsewhere t s s₂ →
      ∀ r, D.wp t (D.finish t) (k r) O O s₂ (s₂.log (.reply t c r))
  | .waiting l k => ∀ s₂, D.inv s₂ → D.rely O s s₂ → Elsewhere t s s₂ → D.own l s₂ →
      D.admits t l s₂ →
      D.wp t (D.finish t) k (insert l O) (insert l O) s₂ (s₂.log (.grant t l))
  | .done => True

/-- The invariant of a schedule. -/
structure Sound (cfg : Config S α) : Prop where
  inv : D.inv cfg.store
  free : ∀ l, cfg.holder l = none → D.own l cfg.store
  task : ∀ t, D.TaskOk t (cfg.owned t) cfg.store (cfg.tasks t)
  fresh : ∀ t p, cfg.tasks t = .ready p →
    cfg.owned t = ∅ ∧ ∀ e ∈ cfg.store.history, e.task ≠ t

omit [DecidableEq S.Lock] in
theorem TaskOk.stable {t : ℕ} {O : Set S.Lock} {s s' : Store S α} {τ : Task S α}
    (h : D.TaskOk t O s τ) (hr : D.rely O s s') (he : Elsewhere t s s') : D.TaskOk t O s' τ := by
  cases τ with
  | ready p => exact h
  | awaiting c k => exact fun s₂ hi hr₂ he₂ => h s₂ hi (D.rely_trans hr hr₂) (he.trans he₂)
  | waiting l k => exact fun s₂ hi hr₂ he₂ => h s₂ hi (D.rely_trans hr hr₂) (he.trans he₂)
  | done => trivial

variable {D}

/-- A segment only adds events of its own task, never to start again. -/
theorem segment_history (ω : Outside S α) (t : ℕ) (p : Prog S α) :
    ∀ s h, (∃ more, (segment ω t p s h).1.history = s.history ++ more ∧ ∀ e ∈ more, e.task = t) ∧
      ∀ q, (segment ω t p s h).2.2 ≠ .ready q := by
  induction p with
  | ret r => exact fun s h => ⟨⟨[.finish t r], by simp [segment, Event.task]⟩, by simp [segment]⟩
  | get k ih => exact fun s h => ih _ s h
  | put w k ih => exact fun s h => ih _ h
  | ask c k ih =>
    intro s h
    obtain ⟨⟨more, hm, ht⟩, hq⟩ := ih (ω s.history c) (s.log (.asked t c (ω s.history c))) h
    refine ⟨⟨.asked t c (ω s.history c) :: more, ?_, ?_⟩, hq⟩
    · simpa [segment] using hm
    · simpa [Event.task] using ht
  | await c k => exact fun s h => ⟨⟨[.call t c], by simp [segment, Event.task]⟩, by simp [segment]⟩
  | acquire l k => exact fun s h => ⟨⟨[], by simp [segment]⟩, by simp [segment]⟩
  | release l k ih => exact fun s h => ih s _

/-- A segment of a program that meets its precondition ends where it may. -/
theorem segment_sound (ω : Outside S α) (t : ℕ) (p : Prog S α) :
    ∀ {O Os s₀ s h}, D.wp t (D.finish t) p O Os s₀ s → (∀ l, l ∈ O ↔ h l = some t) →
      (∀ r, .finish t r ∈ (segment ω t p s h).1.history → ¬ D.fault t r) →
      D.Pause Os { l | (segment ω t p s h).2.1 l = some t } s₀ (segment ω t p s h).1 ∧
      D.TaskOk t { l | (segment ω t p s h).2.1 l = some t } (segment ω t p s h).1
        (segment ω t p s h).2.2 ∧
      ∀ l, (segment ω t p s h).2.1 l = h l ∨
        h l = some t ∧ (segment ω t p s h).2.1 l = none := by
  induction p with
  | ret r =>
    intro O Os s₀ s h hwp hO hf
    have hset : { l | h l = some t } = O := Set.ext fun l => (hO l).symm
    refine ⟨?_, trivial, fun l => Or.inl rfl⟩
    change D.Pause Os { l | h l = some t } s₀ (s.log (.finish t r))
    rw [hset]
    exact hwp (hf r (by simp [segment]))
  | get k ih => exact fun hwp hO hf => ih _ hwp hO hf
  | put w k ih => exact fun hwp hO hf => ih hwp hO hf
  | ask c k ih => exact fun hwp hO hf => ih _ (hwp _) hO hf
  | await c k =>
    intro O Os s₀ s h hwp hO hf
    have hset : { l | h l = some t } = O := Set.ext fun l => (hO l).symm
    refine ⟨?_, ?_, fun l => Or.inl rfl⟩
    · change D.Pause Os { l | h l = some t } s₀ _
      rw [hset]
      exact hwp.1
    · change D.TaskOk t { l | h l = some t } _ _
      rw [hset]
      exact hwp.2
  | acquire l k =>
    intro O Os s₀ s h hwp hO hf
    have hset : { l | h l = some t } = O := Set.ext fun l => (hO l).symm
    refine ⟨?_, ?_, fun l => Or.inl rfl⟩
    · change D.Pause Os { l | h l = some t } s₀ _
      rw [hset]
      exact hwp.1
    · change D.TaskOk t { l | h l = some t } _ _
      rw [hset]
      exact hwp.2
  | release l k ih =>
    intro O Os s₀ s h hwp hO hf
    have hl : h l = some t := (hO l).mp hwp.1
    have hO' : ∀ l', l' ∈ O \ {l} ↔ Function.update h l none l' = some t := by
      intro l'
      by_cases hll : l' = l
      · simp [hll]
      · simp [hll, hO]
    obtain ⟨hp, ht, hh⟩ := ih hwp.2 hO' hf
    refine ⟨hp, ht, fun l' => ?_⟩
    rcases hh l' with hh | ⟨ha, hb⟩
    · by_cases hll : l' = l
      · exact Or.inr ⟨hll ▸ hl, by rw [segment, hh, hll, Function.update_self]⟩
      · exact Or.inl (by rw [segment, hh, Function.update_of_ne hll])
    · exact Or.inr ⟨((hO l').mp ((hO' l').mpr ha).1), hb⟩

omit [DecidableEq S.Lock] in
/-- Put the end of a segment back : everybody else keeps what they were owed. -/
theorem Sound.commit {cfg : Config S α} (hs : D.Sound cfg) {t : ℕ} {Os : Set S.Lock}
    {out : Store S α × (S.Lock → Option ℕ) × Task S α}
    (hOs : ∀ l ∈ Os, cfg.holder l = some t ∨ cfg.holder l = none)
    (hp : D.Pause Os { l | out.2.1 l = some t } cfg.store out.1)
    (ht : D.TaskOk t { l | out.2.1 l = some t } out.1 out.2.2)
    (hh : ∀ l, out.2.1 l = cfg.holder l ∨ l ∈ Os ∧ (out.2.1 l = some t ∨ out.2.1 l = none))
    (hready : ∀ q, out.2.2 ≠ .ready q)
    (hist : ∃ more, out.1.history = cfg.store.history ++ more ∧ ∀ e ∈ more, e.task = t) :
    D.Sound (cfg.commit t out) := by
  -- somebody else's locks are untouched
  have hother : ∀ t', t' ≠ t → (cfg.commit t out).owned t' = cfg.owned t' := by
    intro t' hne
    ext l
    change out.2.1 l = some t' ↔ cfg.holder l = some t'
    rcases hh l with h | ⟨hl, h⟩
    · rw [h]
    · have hne' : some t ≠ some t' := fun e => hne (Option.some.inj e).symm
      rcases h with h | h <;> rcases hOs l hl with h' | h' <;> simp [h, h', Ne.symm hne]
  have hrely : ∀ t', t' ≠ t → D.rely (cfg.owned t') cfg.store out.1 := by
    intro t' hne
    refine hp.rely _ (Set.disjoint_left.mpr fun l hl hl' => ?_)
    have hl : cfg.holder l = some t' := hl
    rcases hOs l hl' with h | h
    · exact hne (Option.some.inj (hl.symm.trans h))
    · exact Option.some_ne_none _ (hl.symm.trans h)
  refine ⟨hp.inv, fun l hl => ?_, fun t' => ?_, fun t' p hr => ?_⟩
  · have hl : out.2.1 l = none := hl
    by_cases hlo : l ∈ Os
    · exact hp.own l hlo (by simp [hl])
    · have hfree : cfg.holder l = none := by
        rcases hh l with h | ⟨h, _⟩
        · rw [← h, hl]
        · exact absurd h hlo
      exact D.own_stable (Set.mem_singleton l)
        (hp.rely {l} (Set.disjoint_singleton_left.mpr hlo)) (hs.free l hfree)
  · by_cases htt : t' = t
    · subst htt
      have h : (cfg.commit t' out).tasks t' = out.2.2 := Function.update_self ..
      rw [h]
      exact ht
    · have helse : Elsewhere t' cfg.store out.1 := by
        obtain ⟨more, hm, hmt⟩ := hist
        exact ⟨more, hm, fun e he => by rw [hmt e he]; exact Ne.symm htt⟩
      have h := (hs.task t').stable D (hrely t' htt) helse
      rw [hother t' htt]
      simpa [Config.commit, htt] using h
  · by_cases htt : t' = t
    · subst htt
      exact absurd (by simpa [Config.commit] using hr) (hready p)
    · have hr' : cfg.tasks t' = .ready p := by simpa [Config.commit, htt] using hr
      obtain ⟨hown, hfr⟩ := hs.fresh t' p hr'
      refine ⟨by rw [hother t' htt, hown], fun e he => ?_⟩
      obtain ⟨more, hm, hmt⟩ := hist
      have he : e ∈ out.1.history := he
      rw [hm] at he
      rcases List.mem_append.mp he with he | he
      · exact hfr e he
      · rw [hmt e he]
        exact fun h => htt h.symm

/-- What a grant needs for the run to be considered. -/
def Admits (D : Discipline S α) (cfg : Config S α) (t : ℕ) : Prop :=
  ∀ l k, cfg.tasks t = .waiting l k → cfg.holder l = none → D.admits t l cfg.store

theorem step_history (ω : Outside S α) (cfg : Config S α) (t : ℕ) :
    ∃ more, (cfg.step ω t).store.history = cfg.store.history ++ more ∧
      ∀ e ∈ more, e.task = t := by
  unfold Config.step
  split
  case h_1 p _ =>
    obtain ⟨⟨more, hm, ht⟩, _⟩ := segment_history ω t p (cfg.store.log (.start t)) cfg.holder
    exact ⟨.start t :: more, by simpa [Config.commit] using hm, by simpa [Event.task] using ht⟩
  case h_2 c k _ =>
    obtain ⟨⟨more, hm, ht⟩, _⟩ := segment_history ω t (k (ω cfg.store.history c))
      (cfg.store.log (.reply t c (ω cfg.store.history c))) cfg.holder
    exact ⟨.reply t c (ω cfg.store.history c) :: more, by simpa [Config.commit] using hm,
      by simpa [Event.task] using ht⟩
  case h_3 l k _ =>
    split
    · obtain ⟨⟨more, hm, ht⟩, _⟩ := segment_history ω t k (cfg.store.log (.grant t l))
        (Function.update cfg.holder l (some t))
      exact ⟨.grant t l :: more, by simpa [Config.commit] using hm, by simpa [Event.task] using ht⟩
    · exact ⟨[], by simp⟩
  case h_4 => exact ⟨[], by simp⟩

theorem run_history (ω : Outside S α) :
    ∀ (schedule : List ℕ) (cfg : Config S α),
      ∃ more, (cfg.run ω schedule).store.history = cfg.store.history ++ more
  | [], cfg => ⟨[], by simp⟩
  | t :: ts, cfg => by
    obtain ⟨a, ha, _⟩ := step_history ω cfg t
    obtain ⟨b, hb⟩ := run_history ω ts (cfg.step ω t)
    exact ⟨a ++ b, by rw [← List.append_assoc, ← ha]; exact hb⟩

/-- One scheduling keeps the invariant. -/
theorem Sound.step {cfg : Config S α} (hs : D.Sound cfg) (ω : Outside S α) (t : ℕ)
    (hadm : D.Admits cfg t)
    (hf : ∀ t' r, .finish t' r ∈ (cfg.step ω t).store.history → ¬ D.fault t' r) :
    D.Sound (cfg.step ω t) := by
  have htask := hs.task t
  cases hc : cfg.tasks t with
  | ready p =>
    obtain ⟨hown, hfresh⟩ := hs.fresh t p hc
    have hstep : cfg.step ω t =
        cfg.commit t (segment ω t p (cfg.store.log (.start t)) cfg.holder) := by
      simp [Config.step, hc]
    rw [hc] at htask
    rw [hstep] at hf ⊢
    have hO : ∀ l, l ∈ (∅ : Set S.Lock) ↔ cfg.holder l = some t := fun l => by
      rw [← hown]; exact Iff.rfl
    obtain ⟨hp, ht, hh⟩ := segment_sound ω t p (htask cfg.store hs.inv hfresh) hO (hf t)
    obtain ⟨⟨more, hm, hmt⟩, hq⟩ := segment_history ω t p (cfg.store.log (.start t)) cfg.holder
    refine hs.commit (by simp) hp ht (fun l => ?_) hq
      ⟨.start t :: more, by simpa using hm, by simpa [Event.task] using hmt⟩
    rcases hh l with h | ⟨h, _⟩
    · exact Or.inl h
    · exact absurd ((hO l).mpr h) (Set.notMem_empty l)
  | awaiting c k =>
    have hstep : cfg.step ω t = cfg.commit t (segment ω t (k (ω cfg.store.history c))
        (cfg.store.log (.reply t c (ω cfg.store.history c))) cfg.holder) := by
      simp [Config.step, hc]
    rw [hc] at htask
    rw [hstep] at hf ⊢
    obtain ⟨hp, ht, hh⟩ := segment_sound ω t _
      (htask cfg.store hs.inv (D.rely_refl _ _) (Elsewhere.refl _ _) (ω cfg.store.history c))
      (fun l => Iff.rfl) (hf t)
    obtain ⟨⟨more, hm, hmt⟩, hq⟩ := segment_history ω t (k (ω cfg.store.history c))
      (cfg.store.log (.reply t c (ω cfg.store.history c))) cfg.holder
    refine hs.commit (fun l hl => Or.inl hl) hp ht (fun l => ?_) hq
      ⟨.reply t c (ω cfg.store.history c) :: more, by simpa using hm,
        by simpa [Event.task] using hmt⟩
    rcases hh l with h | ⟨h, h'⟩
    · exact Or.inl h
    · exact Or.inr ⟨h, Or.inr h'⟩
  | waiting l k =>
    by_cases hl : cfg.holder l = none
    · have hstep : cfg.step ω t = cfg.commit t (segment ω t k (cfg.store.log (.grant t l))
          (Function.update cfg.holder l (some t))) := by
        simp [Config.step, hc, hl]
      rw [hc] at htask
      rw [hstep] at hf ⊢
      have hO : ∀ l', l' ∈ insert l (cfg.owned t) ↔
          Function.update cfg.holder l (some t) l' = some t := by
        intro l'
        by_cases hll : l' = l
        · simp [hll]
        · simp [hll, Config.owned]
      obtain ⟨hp, ht, hh⟩ := segment_sound ω t k
        (htask cfg.store hs.inv (D.rely_refl _ _) (Elsewhere.refl _ _) (hs.free l hl)
          (hadm l k hc hl)) hO (hf t)
      obtain ⟨⟨more, hm, hmt⟩, hq⟩ := segment_history ω t k (cfg.store.log (.grant t l))
        (Function.update cfg.holder l (some t))
      refine hs.commit (fun l' hl' => ?_) hp ht (fun l' => ?_) hq
        ⟨.grant t l :: more, by simpa using hm, by simpa [Event.task] using hmt⟩
      · rcases Set.mem_insert_iff.mp hl' with rfl | h
        · exact Or.inr hl
        · exact Or.inl h
      · by_cases hll : l' = l
        · subst hll
          rcases hh l' with h | ⟨_, h⟩
          · exact Or.inr ⟨Set.mem_insert _ _, Or.inl (by simpa using h)⟩
          · exact Or.inr ⟨Set.mem_insert _ _, Or.inr h⟩
        · rcases hh l' with h | ⟨h, h'⟩
          · exact Or.inl (by simpa [hll] using h)
          · exact Or.inr ⟨(hO l').mpr h, Or.inr h'⟩
    · have hstep : cfg.step ω t = cfg := by simp [Config.step, hc, hl]
      rwa [hstep]
  | done =>
    have hstep : cfg.step ω t = cfg := by simp [Config.step, hc]
    rwa [hstep]

/-- Every grant along a schedule is admitted. -/
def Admissible (D : Discipline S α) (ω : Outside S α) (cfg : Config S α)
    (schedule : List ℕ) : Prop :=
  ∀ ts t us, schedule = ts ++ t :: us → D.Admits (cfg.run ω ts) t

/-- A discipline every task meets holds along every schedule whose grants are admitted
and in which no task ends in a fault. -/
theorem Sound.run (ω : Outside S α) :
    ∀ (schedule : List ℕ) {cfg : Config S α}, D.Sound cfg → D.Admissible ω cfg schedule →
      (∀ t r, .finish t r ∈ (cfg.run ω schedule).store.history → ¬ D.fault t r) →
      D.Sound (cfg.run ω schedule)
  | [], _, hs, _, _ => hs
  | t :: ts, cfg, hs, hadm, hf => by
    have hstep : D.Sound (cfg.step ω t) := by
      refine hs.step ω t (hadm [] t ts rfl) fun t' r hr => hf t' r ?_
      obtain ⟨more, hm⟩ := run_history ω ts (cfg.step ω t)
      change _ ∈ ((cfg.step ω t).run ω ts).store.history
      rw [hm]
      exact List.mem_append_left _ hr
    refine Sound.run ω ts hstep (fun us u vs h => ?_) hf
    exact hadm (t :: us) u vs (by rw [h, List.cons_append])

omit [DecidableEq S.Lock] in
/-- The beginning of a run is sound when every task's program meets the discipline. -/
theorem Sound.initial {w : S.State} {programs : ℕ → Prog S α}
    (hinv : D.inv ⟨w, []⟩) (hown : ∀ l, D.own l ⟨w, []⟩)
    (hwp : ∀ t s, D.inv s → (∀ e ∈ s.history, e.task ≠ t) →
      D.wp t (D.finish t) (programs t) ∅ ∅ s (s.log (.start t))) :
    D.Sound (Config.initial w programs) := by
  refine ⟨hinv, fun l _ => hown l, fun t s₂ hi hf => hwp t s₂ hi hf, fun t p hp => ⟨?_, ?_⟩⟩
  · exact Set.eq_empty_of_forall_notMem fun l hl => by simp [Config.owned, Config.initial] at hl
  · exact fun e he => by simp [Config.initial] at he

/-! ## Invariants of the shared state -/

section Keeping

variable (S α) in
/-- Every task keeps `I` of the shared state at its suspensions, whatever the locks. -/
def keeping (I : S.State → Prop) : Discipline S α where
  inv s := I s.state
  own _ _ := True
  rely _ _ _ := True
  admits _ _ _ := True
  fault _ _ := False
  rely_refl _ _ := trivial
  rely_trans _ _ := trivial
  own_stable _ _ _ := trivial

variable {I : S.State → Prop} {t : ℕ} {O : Set S.Lock}

omit [DecidableEq S.Lock]

theorem keeping_event (e : Event S α) : (keeping S α I).CalmEvent e :=
  fun _ hi => ⟨hi, fun _ => trivial⟩

theorem keeping_step {s s' : Store S α} (h : I s'.state) : (keeping S α I).CalmStep s s' :=
  ⟨h, fun _ => trivial⟩

theorem keeping_update {f : S.State → S.State} (hf : ∀ w, I w → I (f w)) :
    (keeping S α I).CalmUpdateIn (fun _ => True) f :=
  fun s hi _ => ⟨keeping_step (hf s.state hi), trivial⟩

/-- A body under a lock keeps what it keeps without. -/
theorem keeping_withLock {l : S.Lock} {p : Prog S β}
    (hp : (keeping S α I).Calm t {l} (fun _ => True) p) :
    (keeping S α I).Calm t ∅ (fun _ => True) (withLock l p) := by
  refine Calm.withLock (P := fun _ => True) (Set.notMem_empty l) (keeping_event _)
    (fun _ _ _ => trivial) ?_
  rwa [insert_empty_eq]

/-- What every task keeps holds of the shared state all along a schedule. -/
theorem keeping_run [DecidableEq S.Lock] {w : S.State} {programs : ℕ → Prog S α} (hw : I w)
    (hp : ∀ t, (keeping S α I).Calm t ∅ (fun _ => True) (programs t)) (ω : Outside S α)
    (schedule : List ℕ) : I ((Config.initial w programs).run ω schedule).store.state := by
  have h0 : (keeping S α I).Sound (Config.initial w programs) :=
    Sound.initial hw (fun _ => trivial) fun t s hi _ =>
      (hp t).finish (keeping_event _) (fun r => keeping_event _) hi
  exact (h0.run ω schedule (fun _ _ _ _ _ _ _ _ => trivial) fun _ _ _ h => h).inv

end Keeping

end Discipline

end Coop
