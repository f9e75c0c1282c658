import Mathlib.Data.Set.Basic
import Mathlib.Data.Set.Insert
import Mathlib.Logic.Function.Basic

/-!
# Cooperative programs

Programs of a single-threaded event loop, over an interface `Sig` of a shared state,
locks and calls to the outside. A program reads and writes the state, asks a
collaborator that answers at once, awaits one that suspends the task, and takes and
releases locks (`Prog`). A task runs without interruption from one suspension to the
next.

`exec` runs one program alone against an oracle that answers every call from the log of
the earlier ones. `post` is its demonic weakest precondition, over every answer of the
outside (`exec_of_post`); the simp lemmas compute it along a program. Programs that
interleave are in `GymAct.Schedule`.
-/

namespace Coop

/-! ## Programs -/

/-- What a program talks to : the shared state, the locks, the calls with the type of
each answer, and the exceptions. -/
structure Sig where
  State : Type
  Lock : Type
  Call : Type
  Reply : Call → Type
  Err : Type

/-- A program that returns an `α` or raises. -/
inductive Prog (S : Sig) (α : Type) : Type
  /-- Return, or raise. -/
  | ret (r : Except S.Err α)
  | get (k : S.State → Prog S α)
  | put (s : S.State) (k : Prog S α)
  /-- A call that is answered without suspending the task. -/
  | ask (c : S.Call) (k : S.Reply c → Prog S α)
  /-- A call at which the task is suspended until the answer is there. -/
  | await (c : S.Call) (k : S.Reply c → Prog S α)
  | acquire (l : S.Lock) (k : Prog S α)
  | release (l : S.Lock) (k : Prog S α)

variable {S : Sig} {α β γ : Type}

namespace Prog

/-- Run `f` on the outcome of a program, returned or raised. -/
def bindE : Prog S α → (Except S.Err α → Prog S β) → Prog S β
  | ret r, f => f r
  | get k, f => get fun s => (k s).bindE f
  | put s k, f => put s (k.bindE f)
  | ask c k, f => ask c fun r => (k r).bindE f
  | await c k, f => await c fun r => (k r).bindE f
  | acquire l k, f => acquire l (k.bindE f)
  | release l k, f => release l (k.bindE f)

theorem bindE_assoc (p : Prog S α) (f : Except S.Err α → Prog S β)
    (g : Except S.Err β → Prog S γ) :
    (p.bindE f).bindE g = p.bindE fun r => (f r).bindE g := by
  induction p with
  | ret r => rfl
  | get k ih => exact congrArg get (funext ih)
  | put s k ih => exact congrArg (put s) ih
  | ask c k ih => exact congrArg (ask c) (funext ih)
  | await c k ih => exact congrArg (await c) (funext ih)
  | acquire l k ih => exact congrArg (acquire l) ih
  | release l k ih => exact congrArg (release l) ih

/-- Continue with the value; an exception passes through. -/
def onOk (f : α → Prog S β) : Except S.Err α → Prog S β
  | .ok a => f a
  | .error e => ret (.error e)

instance : Monad (Prog S) where
  pure a := ret (.ok a)
  bind p f := p.bindE (onOk f)

theorem prog_bind_assoc (p : Prog S α) (f : α → Prog S β) (g : β → Prog S γ) :
    (p >>= f) >>= g = p >>= fun a => f a >>= g := by
  refine (bindE_assoc p (onOk f) (onOk g)).trans (congrArg p.bindE (funext fun r => ?_))
  cases r <;> rfl

theorem prog_pure_bind (a : α) (f : α → Prog S β) : (pure a : Prog S α) >>= f = f a := rfl

/-- Raise. -/
def raise (e : S.Err) : Prog S α := ret (.error e)

/-- A value, or an exception, computed without effects. -/
def lift (r : Except S.Err α) : Prog S α := ret r

/-- The shared state. -/
def getState : Prog S S.State := get fun s => ret (.ok s)

/-- Change the shared state. -/
def modify (f : S.State → S.State) : Prog S Unit := get fun s => put (f s) (ret (.ok ()))

/-- One call answered at once. -/
def askCall (c : S.Call) : Prog S (S.Reply c) := ask c fun r => ret (.ok r)

/-- One call that suspends. -/
def awaitCall (c : S.Call) : Prog S (S.Reply c) := await c fun r => ret (.ok r)

/-- The outcome of a program as a value, as the body of a `try`. -/
def attempt (p : Prog S α) : Prog S (Except S.Err α) := p.bindE fun r => ret (.ok r)

/-- Hold a lock around a program; it is released on return and on an exception. -/
def withLock (l : S.Lock) (p : Prog S α) : Prog S α :=
  acquire l (p.bindE fun r => release l (ret r))

end Prog

open Prog

/-! ## A program alone -/

/-- The calls made so far with their answers, in order. -/
abbrev Log (S : Sig) := List (Σ c : S.Call, S.Reply c)

/-- The outside : an answer to every call, chosen with sight of all earlier ones. -/
abbrev Oracle (S : Sig) := Log S → (c : S.Call) → S.Reply c

/-- Run a program with nobody else around : locks are free. -/
def exec (ω : Oracle S) : Prog S α → S.State → Log S → Except S.Err α × S.State × Log S
  | .ret r, s, log => (r, s, log)
  | .get k, s, log => exec ω (k s) s log
  | .put s k, _, log => exec ω k s log
  | .ask c k, s, log => exec ω (k (ω log c)) s (log ++ [⟨c, ω log c⟩])
  | .await c k, s, log => exec ω (k (ω log c)) s (log ++ [⟨c, ω log c⟩])
  | .acquire _ k, s, log => exec ω k s log
  | .release _ k, s, log => exec ω k s log

theorem exec_bindE (ω : Oracle S) (p : Prog S α) (f : Except S.Err α → Prog S β) :
    ∀ s log, exec ω (p.bindE f) s log =
      exec ω (f (exec ω p s log).1) (exec ω p s log).2.1 (exec ω p s log).2.2 := by
  induction p with
  | ret r => exact fun _ _ => rfl
  | get k ih => exact fun s log => ih s s log
  | put s k ih => exact fun _ log => ih s log
  | ask c k ih => exact fun s log => ih _ s _
  | await c k ih => exact fun s log => ih _ s _
  | acquire l k ih => exact ih
  | release l k ih => exact ih

theorem exec_bind (ω : Oracle S) (p : Prog S α) (f : α → Prog S β) (s : S.State) (log : Log S) :
    exec ω (p >>= f) s log =
      exec ω (onOk f (exec ω p s log).1) (exec ω p s log).2.1 (exec ω p s log).2.2 :=
  exec_bindE ω p (onOk f) s log

theorem exec_map (ω : Oracle S) (p : Prog S α) (f : α → β) (s : S.State) (log : Log S) :
    exec ω (f <$> p) s log = ((exec ω p s log).1.map f, (exec ω p s log).2) := by
  refine (exec_bindE ω p _ s log).trans ?_
  rcases exec ω p s log with ⟨a | e, s', log'⟩ <;> rfl

/-- The log only grows. -/
theorem exec_log (ω : Oracle S) (p : Prog S α) :
    ∀ s log, ∃ more, (exec ω p s log).2.2 = log ++ more := by
  induction p with
  | ret r => exact fun _ log => ⟨[], by simp [exec]⟩
  | get k ih => exact fun s log => ih s s log
  | put s k ih => exact fun _ log => ih s log
  | ask c k ih | await c k ih =>
    intro s log
    obtain ⟨more, h⟩ := ih (ω log c) s (log ++ [⟨c, ω log c⟩])
    exact ⟨⟨c, ω log c⟩ :: more, by simpa [exec] using h⟩
  | acquire l k ih | release l k ih => exact ih

/-- Every call of a run is answered from the log of the calls before it. -/
theorem exec_answers (ω : Oracle S) (p : Prog S α) :
    ∀ {s log} (pre : Log S) {e more}, (exec ω p s log).2.2 = log ++ (pre ++ e :: more) →
      e = ⟨e.1, ω (log ++ pre) e.1⟩ := by
  induction p with
  | ret r => exact fun pre _ _ h => absurd (congrArg List.length h) (by simp [exec])
  | get k ih => exact fun {s _} => ih s
  | put s k ih => exact ih
  | ask c k ih | await c k ih =>
    intro s log pre e more h
    obtain ⟨rest, hrest⟩ := exec_log ω (k (ω log c)) s (log ++ [⟨c, ω log c⟩])
    have hcalls : ⟨c, ω log c⟩ :: rest = pre ++ e :: more := by
      rw [exec, hrest, List.append_assoc] at h
      exact List.append_cancel_left h
    cases pre with
    | nil =>
      obtain ⟨rfl, -⟩ := List.cons.inj hcalls
      rw [List.append_nil]
    | cons x pre =>
      obtain ⟨rfl, rfl⟩ := List.cons.inj hcalls
      rw [List.append_cons]
      exact ih (ω log c) pre hrest
  | acquire l k ih | release l k ih => exact ih

/-- The first call of a run is answered from the log it began with. -/
theorem exec_head (ω : Oracle S) (p : Prog S α) {s : S.State} {log : Log S}
    {e : Σ c : S.Call, S.Reply c} {more : Log S} (h : (exec ω p s log).2.2 = log ++ e :: more) :
    e = ⟨e.1, ω log e.1⟩ := by
  simpa using exec_answers ω p [] h

/-- Two oracles that answer the calls of a run alike run the program alike. -/
theorem exec_congr {ω ω' : Oracle S} {P : S.Call → Prop} (h : ∀ log c, P c → ω log c = ω' log c)
    (p : Prog S α) :
    ∀ {s log}, (∀ more, (exec ω p s log).2.2 = log ++ more → ∀ e ∈ more, P e.1) →
      exec ω p s log = exec ω' p s log := by
  induction p with
  | ret r => exact fun _ => rfl
  | get k ih => exact fun {s _} hP => ih s hP
  | put s k ih => exact ih
  | ask c k ih | await c k ih =>
    intro s log hP
    obtain ⟨rest, hrest⟩ := exec_log ω (k (ω log c)) s (log ++ [⟨c, ω log c⟩])
    have hmore := hP (⟨c, ω log c⟩ :: rest) (by rw [exec, hrest]; simp)
    have hc : ω log c = ω' log c := h log c (hmore _ List.mem_cons_self)
    rw [exec, exec, ← hc]
    refine ih (ω log c) fun more heq e he => hP (⟨c, ω log c⟩ :: more) (by rw [exec, heq]; simp) e ?_
    exact List.mem_cons_of_mem _ he
  | acquire l k ih | release l k ih => exact ih

/-- A sequence that returned : its first part returned. -/
theorem exec_bind_ok {ω : Oracle S} {p : Prog S α} {f : α → Prog S β} {s : S.State} {log : Log S}
    {b : β} {s' : S.State} {log' : Log S} (h : exec ω (p >>= f) s log = (.ok b, s', log')) :
    ∃ a s₁ log₁, exec ω p s log = (.ok a, s₁, log₁) ∧ exec ω (f a) s₁ log₁ = (.ok b, s', log') := by
  rw [exec_bind] at h
  rcases hp : exec ω p s log with ⟨a | e, s₁, log₁⟩
  · rw [hp] at h
    cases congrArg Prod.fst h
  · rw [hp] at h
    exact ⟨_, s₁, log₁, rfl, h⟩

/-- `post A Q p s log` : whatever the outside answers, as long as `A` admits the answers,
`p` ends in an outcome, a state and a log that `Q` holds of. -/
def post (A : (c : S.Call) → S.Reply c → Prop)
    (Q : Except S.Err α → S.State → Log S → Prop) : Prog S α → S.State → Log S → Prop
  | .ret r, s, log => Q r s log
  | .get k, s, log => post A Q (k s) s log
  | .put s k, _, log => post A Q k s log
  | .ask c k, s, log => ∀ r, A c r → post A Q (k r) s (log ++ [⟨c, r⟩])
  | .await c k, s, log => ∀ r, A c r → post A Q (k r) s (log ++ [⟨c, r⟩])
  | .acquire _ k, s, log => post A Q k s log
  | .release _ k, s, log => post A Q k s log

section Post

variable {A : (c : S.Call) → S.Reply c → Prop}
  {Q Q' : Except S.Err α → S.State → Log S → Prop} {s : S.State} {log : Log S}

/-- What `post` promises holds of every run against an oracle whose answers are admitted. -/
theorem exec_of_post {ω : Oracle S} (hω : ∀ log c, A c (ω log c)) (p : Prog S α) :
    ∀ {s log}, post A Q p s log →
      Q (exec ω p s log).1 (exec ω p s log).2.1 (exec ω p s log).2.2 := by
  induction p with
  | ret r => exact id
  | get k ih => exact fun {s _} h => ih s h
  | put s k ih => exact ih
  | ask c k ih | await c k ih => exact fun h => ih _ (h _ (hω _ _))
  | acquire l k ih | release l k ih => exact ih

theorem post_mono (hQ : ∀ r s log, Q r s log → Q' r s log) (p : Prog S α) :
    ∀ {s log}, post A Q p s log → post A Q' p s log := by
  induction p with
  | ret r => exact hQ _ _ _
  | get k ih => exact fun {s _} h => ih s h
  | put s k ih => exact ih
  | ask c k ih | await c k ih => exact fun h r hr => ih r (h r hr)
  | acquire l k ih | release l k ih => exact ih

theorem post_bindE {R : Except S.Err β → S.State → Log S → Prop}
    (p : Prog S α) (f : Except S.Err α → Prog S β) :
    ∀ {s log}, post A R (p.bindE f) s log ↔
      post A (fun r s log => post A R (f r) s log) p s log := by
  induction p with
  | ret r => exact Iff.rfl
  | get k ih => exact fun {s _} => ih s
  | put s k ih => exact ih
  | ask c k ih | await c k ih => exact forall_congr' fun r => imp_congr_right fun _ => ih r
  | acquire l k ih | release l k ih => exact ih

@[simp] theorem post_ret (r : Except S.Err α) : post A Q (ret r) s log ↔ Q r s log := Iff.rfl

@[simp] theorem post_bind {R : Except S.Err β → S.State → Log S → Prop}
    (p : Prog S α) (f : α → Prog S β) :
    post A R (p >>= f) s log ↔ post A (fun r s log => post A R (onOk f r) s log) p s log :=
  post_bindE p (onOk f)

@[simp] theorem post_map {R : Except S.Err β → S.State → Log S → Prop}
    (p : Prog S α) (f : α → β) :
    post A R (f <$> p) s log ↔ post A (fun r s log => R (r.map f) s log) p s log := by
  refine (post_bindE p _).trans ⟨post_mono (fun r s log h => ?_) p, post_mono (fun r s log h => ?_) p⟩
  all_goals cases r <;> exact h

@[simp] theorem post_pure (a : α) :
    post A Q (pure a : Prog S α) s log ↔ Q (.ok a) s log := Iff.rfl

@[simp] theorem post_raise (e : S.Err) :
    post A Q (raise e : Prog S α) s log ↔ Q (.error e) s log := Iff.rfl

@[simp] theorem post_lift (r : Except S.Err α) :
    post A Q (Prog.lift r) s log ↔ Q r s log := Iff.rfl

@[simp] theorem post_getState {R : Except S.Err S.State → S.State → Log S → Prop} :
    @post S (no_index S.State) A R getState s log ↔ R (.ok s) s log := Iff.rfl

@[simp] theorem post_modify {R : Except S.Err Unit → S.State → Log S → Prop}
    (f : S.State → S.State) : post A R (modify f) s log ↔ R (.ok ()) (f s) log := Iff.rfl

@[simp] theorem post_askCall (c : S.Call)
    {R : Except S.Err (S.Reply c) → S.State → Log S → Prop} :
    @post S (no_index (S.Reply c)) A R (askCall c) s log ↔
      ∀ r, A c r → R (.ok r) s (log ++ [⟨c, r⟩]) := Iff.rfl

@[simp] theorem post_awaitCall (c : S.Call)
    {R : Except S.Err (S.Reply c) → S.State → Log S → Prop} :
    @post S (no_index (S.Reply c)) A R (awaitCall c) s log ↔
      ∀ r, A c r → R (.ok r) s (log ++ [⟨c, r⟩]) := Iff.rfl

@[simp] theorem post_attempt {R : Except S.Err (Except S.Err α) → S.State → Log S → Prop}
    (p : Prog S α) :
    @post S (no_index (Except S.Err α)) A R (attempt p) s log ↔
      post A (fun r s log => R (.ok r) s log) p s log :=
  post_bindE p _

@[simp] theorem post_withLock (l : S.Lock) (p : Prog S α) :
    post A Q (withLock l p) s log ↔ post A Q p s log :=
  post_bindE p _

@[simp] theorem post_onOk {R : Except S.Err β → S.State → Log S → Prop}
    (f : α → Prog S β) (a : α) :
    post A R (onOk f (no_index (.ok a))) s log ↔ post A R (f a) s log := Iff.rfl

@[simp] theorem post_onOk_error {R : Except S.Err β → S.State → Log S → Prop}
    (f : α → Prog S β) (e : S.Err) :
    post A R (onOk f (no_index (.error e))) s log ↔ R (.error e) s log := Iff.rfl

theorem post_of_forall (h : ∀ r s log, Q r s log) (p : Prog S α) :
    ∀ {s log}, post A Q p s log := by
  induction p with
  | ret r => exact fun {_ _} => h _ _ _
  | get k ih => exact fun {s _} => ih s
  | put s k ih => exact ih
  | ask c k ih | await c k ih => exact fun {_ _} r _ => ih r
  | acquire l k ih | release l k ih => exact ih

/-- Whatever a first part does, what is left of it promises. -/
theorem post_bind_any {R : Except S.Err β → S.State → Log S → Prop} {p : Prog S α}
    {f : α → Prog S β} (hok : ∀ a s log, post A R (f a) s log)
    (herr : ∀ e s log, R (.error e) s log) : post A R (p >>= f) s log :=
  (post_bind p f).mpr <| post_of_forall (fun r s log => by
    cases r with
    | ok a => exact hok a s log
    | error e => exact herr e s log) p

/-- Some run does what `post` promises of all, and its log goes on from where it began. -/
theorem post_exists (hA : ∀ c, ∃ r, A c r) (p : Prog S α) :
    ∀ {s log}, post A Q p s log → ∃ r s' more, Q r s' (log ++ more) := by
  induction p with
  | ret r => exact fun {s _} h => ⟨r, s, [], by simpa using h⟩
  | get k ih => exact fun {s _} h => ih s h
  | put s k ih => exact ih
  | ask c k ih | await c k ih =>
    intro s log h
    obtain ⟨r, hr⟩ := hA c
    obtain ⟨x, s', more, hx⟩ := ih r (h r hr)
    exact ⟨x, s', ⟨c, r⟩ :: more, by simpa using hx⟩
  | acquire l k ih | release l k ih => exact ih

/-- What holds of every logged call of a run holds of those of its beginning. -/
theorem post_logged {P : (Σ c : S.Call, S.Reply c) → Prop} (hA : ∀ c, ∃ r, A c r)
    {p : Prog S α} {f : Except S.Err α → Prog S β}
    (h : post A (fun _ _ log => ∀ e ∈ log, P e) (p.bindE f) s log) :
    post A (fun _ _ log => ∀ e ∈ log, P e) p s log := by
  refine post_mono (fun r s log h e he => ?_) p ((post_bindE p f).mp h)
  obtain ⟨_, _, more, hlog⟩ := post_exists hA (f r) h
  exact hlog e (List.mem_append_left more he)

/-- The run against an outside that answers each call in one way. -/
theorem post_answers {ω : (c : S.Call) → S.Reply c} (p : Prog S α) :
    ∀ {s log}, post (fun c r => r = ω c) Q p s log ↔
      Q (exec (fun _ => ω) p s log).1 (exec (fun _ => ω) p s log).2.1
        (exec (fun _ => ω) p s log).2.2 := by
  induction p with
  | ret r => exact Iff.rfl
  | get k ih => exact fun {s _} => ih s
  | put s k ih => exact ih
  | ask c k ih | await c k ih => exact forall_eq.trans (ih (ω c))
  | acquire l k ih | release l k ih => exact ih

end Post

/-! ## Programs within a larger state -/

/-- The same interface over another state. -/
@[reducible] def Sig.over (S : Sig) (T : Type) : Sig := { S with State := T }

/-- A program over a part of a state. -/
def Prog.within {T : Type} (view : T → S.State) (update : S.State → T → T) :
    Prog S α → Prog (S.over T) α
  | ret r => ret r
  | get k => get fun t => (k (view t)).within view update
  | put s k => get fun t => put (update s t) (k.within view update)
  | ask c k => ask c fun r => (k r).within view update
  | await c k => await c fun r => (k r).within view update
  | acquire l k => acquire l (k.within view update)
  | release l k => release l (k.within view update)

/-- A program over a part of a state changes that part only. -/
theorem post_within {T : Type} {view : T → S.State} {update : S.State → T → T}
    {A : (c : S.Call) → S.Reply c → Prop} {R : T → T → Prop}
    (hupdate : ∀ t t' s, R t t' → R t (update s t')) (p : Prog S α) {t₀ : T} :
    ∀ {t log}, R t₀ t →
      post (S := S.over T) A (fun _ t' _ => R t₀ t') (p.within view update) t log := by
  induction p with
  | ret r => exact id
  | get k ih => exact fun {t _} h => ih (view t) h
  | put s k ih => exact fun {t _} h => ih (hupdate t₀ t s h)
  | ask c k ih | await c k ih => exact fun h r _ => ih r h
  | acquire l k ih | release l k ih => exact ih

/-! ## Programs that keep an invariant -/

/-- `p` keeps `I`, however it ends. -/
def Keeps (A : (c : S.Call) → S.Reply c → Prop) (I : S.State → Log S → Prop)
    (p : Prog S α) : Prop :=
  ∀ s log, I s log → post A (fun _ s log => I s log) p s log

section Keeps

variable {A : (c : S.Call) → S.Reply c → Prop} {I : S.State → Log S → Prop}

theorem Keeps.pure (a : α) : Keeps A I (pure a : Prog S α) := fun _ _ h => h

theorem Keeps.raise (e : S.Err) : Keeps A I (raise e : Prog S α) := fun _ _ h => h

theorem Keeps.lift (r : Except S.Err α) : Keeps A I (Prog.lift r) := fun _ _ h => h

theorem Keeps.getState : Keeps A I (getState : Prog S S.State) := fun _ _ h => h

theorem Keeps.bindE {p : Prog S α} {f : Except S.Err α → Prog S β} (hp : Keeps A I p)
    (hf : ∀ r, Keeps A I (f r)) : Keeps A I (p.bindE f) := by
  intro s log h
  rw [post_bindE]
  exact post_mono (fun r s log h => hf r s log h) p (hp s log h)

theorem Keeps.bind {p : Prog S α} {f : α → Prog S β} (hp : Keeps A I p)
    (hf : ∀ a, Keeps A I (f a)) : Keeps A I (p >>= f) :=
  hp.bindE fun r => by
    cases r with
    | ok a => exact hf a
    | error e => exact Keeps.raise e

theorem Keeps.map {p : Prog S α} (hp : Keeps A I p) (f : α → β) : Keeps A I (f <$> p) :=
  fun s log h => (post_map p f).mpr (hp s log h)

theorem Keeps.attempt {p : Prog S α} (hp : Keeps A I p) : Keeps A I (attempt p) :=
  fun s log h => (post_attempt p).mpr (hp s log h)

theorem Keeps.withLock {p : Prog S α} (hp : Keeps A I p) (l : S.Lock) :
    Keeps A I (withLock l p) :=
  fun s log h => (post_withLock l p).mpr (hp s log h)

theorem Keeps.modify {f : S.State → S.State} (hf : ∀ s log, I s log → I (f s) log) :
    Keeps A I (modify f) :=
  fun s log h => hf s log h

theorem Keeps.awaitCall {c : S.Call} (hc : ∀ s log r, A c r → I s log → I s (log ++ [⟨c, r⟩])) :
    Keeps A I (awaitCall c) :=
  fun s log h r hr => hc s log r hr h

theorem Keeps.askCall {c : S.Call} (hc : ∀ s log r, A c r → I s log → I s (log ++ [⟨c, r⟩])) :
    Keeps A I (askCall c) :=
  fun s log h r hr => hc s log r hr h

end Keeps

/-! ## Programs that ask first -/

/-- `p` makes calls of `G`, and nothing else, until what is left of it is in `Tail`; the
answers are those `A` admits. -/
inductive Leads (A : (c : S.Call) → S.Reply c → Prop) (G : S.Call → Prop)
    (Tail : Prog S α → Prop) : Prog S α → Prop
  | tail {p : Prog S α} (h : Tail p) : Leads A G Tail p
  | ask {c : S.Call} {k : S.Reply c → Prog S α} (hc : G c)
      (hk : ∀ r, A c r → Leads A G Tail (k r)) : Leads A G Tail (.ask c k)
  | await {c : S.Call} {k : S.Reply c → Prog S α} (hc : G c)
      (hk : ∀ r, A c r → Leads A G Tail (k r)) : Leads A G Tail (.await c k)

/-- `p` only makes calls of `G`, and ends in an outcome of `Ψ`. -/
def Gated (A : (c : S.Call) → S.Reply c → Prop) (G : S.Call → Prop)
    (Ψ : Except S.Err α → Prop) : Prog S α → Prop :=
  Leads A G fun q => ∃ r, Ψ r ∧ q = ret r

section Leads

variable {A : (c : S.Call) → S.Reply c → Prop} {G : S.Call → Prop}
  {Tail Tail' : Prog S α → Prop} {Ψ Ψ' : Except S.Err α → Prop}

theorem Leads.bindE {Rest : Prog S β → Prop} {f : Except S.Err α → Prog S β} {p : Prog S α}
    (hp : Leads A G Tail p) (hf : ∀ q, Tail q → Leads A G Rest (q.bindE f)) :
    Leads A G Rest (p.bindE f) := by
  induction hp with
  | tail h => exact hf _ h
  | ask hc _ ih => exact .ask hc ih
  | await hc _ ih => exact .await hc ih

theorem Leads.mono {p : Prog S α} (hp : Leads A G Tail p) (h : ∀ q, Tail q → Tail' q) :
    Leads A G Tail' p := by
  induction hp with
  | tail ht => exact .tail (h _ ht)
  | ask hc _ ih => exact .ask hc ih
  | await hc _ ih => exact .await hc ih

/-- More calls allowed. -/
theorem Leads.weaken {G' : S.Call → Prop} {p : Prog S α} (hp : Leads A G Tail p)
    (h : ∀ c, G c → G' c) : Leads A G' Tail p := by
  induction hp with
  | tail ht => exact .tail ht
  | ask hc _ ih => exact .ask (h _ hc) ih
  | await hc _ ih => exact .await (h _ hc) ih

theorem Gated.weaken {G' : S.Call → Prop} {p : Prog S α} (hp : Gated A G Ψ p)
    (h : ∀ c, G c → G' c) : Gated A G' Ψ p :=
  Leads.weaken hp h

theorem Gated.ret {r : Except S.Err α} (h : Ψ r) : Gated A G Ψ (ret r) := .tail ⟨r, h, rfl⟩

theorem Gated.awaitCall {c : S.Call} {Ψ : Except S.Err (S.Reply c) → Prop} (hc : G c)
    (h : ∀ r, A c r → Ψ (.ok r)) : Gated A G Ψ (awaitCall c) :=
  .await hc fun r hr => .tail ⟨.ok r, h r hr, rfl⟩

theorem Gated.askCall {c : S.Call} {Ψ : Except S.Err (S.Reply c) → Prop} (hc : G c)
    (h : ∀ r, A c r → Ψ (.ok r)) : Gated A G Ψ (askCall c) :=
  .ask hc fun r hr => .tail ⟨.ok r, h r hr, rfl⟩

/-- A program that only asks, and then a program for each of its outcomes. -/
theorem Gated.leads {Rest : Prog S β → Prop} {f : Except S.Err α → Prog S β} {p : Prog S α}
    (hp : Gated A G Ψ p) (hf : ∀ r, Ψ r → Leads A G Rest (f r)) :
    Leads A G Rest (p.bindE f) :=
  Leads.bindE hp fun q ⟨r, hr, hq⟩ => by
    subst hq
    exact hf r hr

theorem Gated.bind {Rest : Prog S β → Prop} {p : Prog S α} {f : α → Prog S β}
    (hp : Gated A G Ψ p) (hok : ∀ a, Ψ (.ok a) → Leads A G Rest (f a))
    (herr : ∀ e, Ψ (.error e) → Rest (raise e)) : Leads A G Rest (p >>= f) :=
  hp.leads fun r hr => by
    cases r with
    | ok a => exact hok a hr
    | error e => exact .tail (herr e hr)

/-- The body of a `try` that only asks, and then its handlers. -/
theorem Gated.attempt_bind {Rest : Prog S β → Prop} {p : Prog S α}
    {f : Except S.Err α → Prog S β} (hp : Gated A G Ψ p)
    (hf : ∀ r, Ψ r → Leads A G Rest (f r)) : Leads A G Rest (attempt p >>= f) := by
  have h : (attempt p >>= f) = p.bindE f := bindE_assoc p _ _
  rw [h]
  exact hp.leads hf

theorem Gated.attempt {Θ : Except S.Err (Except S.Err α) → Prop} {p : Prog S α}
    (hp : Gated A G (fun r => Θ (.ok r)) p) : Gated A G Θ (attempt p) :=
  hp.leads fun _ hr => Gated.ret hr

/-- Calls first leave the state alone and are added to the log. -/
theorem Leads.post {Q : Except S.Err α → S.State → Log S → Prop} {s : S.State} {p : Prog S α}
    (hp : Leads A G Tail p) :
    ∀ {log : Log S}, (∀ q more, (∀ e ∈ more, G e.1) → Tail q → post A Q q s (log ++ more)) →
      post A Q p s log := by
  induction hp with
  | tail h => exact fun hQ => by simpa using hQ _ [] (by simp) h
  | @ask c k hc _ ih =>
    intro log hQ r hr
    refine ih r hr fun q more hmore ht => ?_
    simpa using hQ q (⟨c, r⟩ :: more) (by simpa using ⟨hc, hmore⟩) ht
  | @await c k hc _ ih =>
    intro log hQ r hr
    refine ih r hr fun q more hmore ht => ?_
    simpa using hQ q (⟨c, r⟩ :: more) (by simpa using ⟨hc, hmore⟩) ht

theorem Gated.post {Q : Except S.Err α → S.State → Log S → Prop} {s : S.State} {p : Prog S α}
    (hp : Gated A G Ψ p) {log : Log S}
    (hQ : ∀ r more, (∀ e ∈ more, G e.1) → Ψ r → Q r s (log ++ more)) : post A Q p s log :=
  Leads.post hp fun q more hmore ⟨r, hr, hq⟩ => by
    subst hq
    exact hQ r more hmore hr

/-- A program that asks first keeps what its calls and its tails keep. -/
theorem Leads.keeps {I : S.State → Log S → Prop} {p : Prog S α} (hp : Leads A G Tail p)
    (hcall : ∀ s log c r, G c → I s log → I s (log ++ [⟨c, r⟩]))
    (htail : ∀ q, Tail q → Keeps A I q) : Keeps A I p := by
  induction hp with
  | tail h => exact htail _ h
  | ask hc _ ih => exact fun s log h r hr => ih r hr s _ (hcall s log _ r hc h)
  | await hc _ ih => exact fun s log h r hr => ih r hr s _ (hcall s log _ r hc h)

theorem Gated.keeps {I : S.State → Log S → Prop} {p : Prog S α} (hp : Gated A G Ψ p)
    (hcall : ∀ s log c r, G c → I s log → I s (log ++ [⟨c, r⟩])) : Keeps A I p :=
  Leads.keeps hp hcall fun _ ⟨r, _, hq⟩ => by
    subst hq
    exact Keeps.lift r

end Leads

end Coop
