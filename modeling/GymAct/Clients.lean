import GymAct.Coop

/-!
# Clients of a machine

A program whose calls are answered by a machine with a state of its own (`Server`), which the
program does not see. `execOn` runs the program and the machine together, and `postOn` says what
holds at the end : at a call it is what holds of the machine's answer, where the machine is left.
-/

namespace Coop

open Prog

variable {S : Sig} {σ α β : Type}

/-- A machine that answers calls. -/
abbrev Server (S : Sig) (σ : Type) := (c : S.Call) → σ → S.Reply c × σ

/-- Run a program over a machine, with nobody else around. -/
def execOn (serve : Server S σ) :
    Prog S α → S.State → σ → Log S → Except S.Err α × S.State × σ × Log S
  | .ret r, s, k, log => (r, s, k, log)
  | .get f, s, k, log => execOn serve (f s) s k log
  | .put s p, _, k, log => execOn serve p s k log
  | .ask c f, s, k, log | .await c f, s, k, log =>
    execOn serve (f (serve c k).1) s (serve c k).2 (log ++ [⟨c, (serve c k).1⟩])
  | .acquire _ p, s, k, log | .release _ p, s, k, log => execOn serve p s k log

variable {serve : Server S σ}

theorem execOn_bindE (p : Prog S α) (f : Except S.Err α → Prog S β) :
    ∀ s k log, execOn serve (p.bindE f) s k log =
      execOn serve (f (execOn serve p s k log).1) (execOn serve p s k log).2.1
        (execOn serve p s k log).2.2.1 (execOn serve p s k log).2.2.2 := by
  induction p with
  | ret r => exact fun _ _ _ => rfl
  | get f ih => exact fun s k log => ih s s k log
  | put s p ih => exact fun _ k log => ih s k log
  | ask c f ih | await c f ih => exact fun s k log => ih (serve c k).1 s (serve c k).2 _
  | acquire l p ih | release l p ih => exact ih

/-- A run adds to the log. -/
theorem execOn_log (p : Prog S α) :
    ∀ s k log, ∃ more, (execOn serve p s k log).2.2.2 = log ++ more := by
  induction p with
  | ret r => exact fun _ _ log => ⟨[], (List.append_nil log).symm⟩
  | get f ih => exact fun s k log => ih s s k log
  | put s p ih => exact fun _ k log => ih s k log
  | ask c f ih | await c f ih =>
    intro s k log
    obtain ⟨more, hmore⟩ := ih (serve c k).1 s (serve c k).2 (log ++ [⟨c, (serve c k).1⟩])
    exact ⟨⟨c, (serve c k).1⟩ :: more, hmore.trans (List.append_assoc _ _ _)⟩
  | acquire l p ih | release l p ih => exact ih

/-- What holds at the end of a run over a machine. -/
def postOn (serve : Server S σ) (Q : Except S.Err α → S.State → σ → Log S → Prop) (p : Prog S α)
    (s : S.State) (k : σ) (log : Log S) : Prop :=
  Q (execOn serve p s k log).1 (execOn serve p s k log).2.1 (execOn serve p s k log).2.2.1
    (execOn serve p s k log).2.2.2

section Rules

variable {Q Q' : Except S.Err α → S.State → σ → Log S → Prop} {s : S.State} {k : σ} {log : Log S}

theorem postOn_bind {R : Except S.Err β → S.State → σ → Log S → Prop} (p : Prog S α)
    (f : α → Prog S β) :
    postOn serve R (p >>= f) s k log ↔
      postOn serve (fun r s k log => postOn serve R (onOk f r) s k log) p s k log := by
  unfold postOn
  rw [show p >>= f = p.bindE (onOk f) from rfl, execOn_bindE]

@[simp] theorem postOn_pure (a : α) :
    postOn serve Q (pure a) s k log ↔ Q (.ok a) s k log := Iff.rfl

@[simp] theorem postOn_raise (e : S.Err) :
    postOn serve Q (raise e) s k log ↔ Q (.error e) s k log := Iff.rfl

@[simp] theorem postOn_lift (r : Except S.Err α) :
    postOn serve Q (Prog.lift r) s k log ↔ Q r s k log := Iff.rfl

@[simp] theorem postOn_onOk {R : Except S.Err β → S.State → σ → Log S → Prop}
    (f : α → Prog S β) (a : α) :
    postOn serve R (onOk f (.ok a)) s k log ↔ postOn serve R (f a) s k log := Iff.rfl

theorem postOn_attempt {R : Except S.Err (Except S.Err α) → S.State → σ → Log S → Prop}
    (p : Prog S α) :
    postOn serve R (attempt p) s k log ↔ postOn serve (fun r => R (.ok r)) p s k log := by
  unfold postOn attempt
  rw [execOn_bindE]
  rfl

theorem postOn_awaitCall (c : S.Call)
    {R : Except S.Err (S.Reply c) → S.State → σ → Log S → Prop} :
    postOn serve R (awaitCall c) s k log ↔
      R (.ok (serve c k).1) s (serve c k).2 (log ++ [⟨c, (serve c k).1⟩]) := Iff.rfl

theorem postOn_askCall (c : S.Call)
    {R : Except S.Err (S.Reply c) → S.State → σ → Log S → Prop} :
    postOn serve R (askCall c) s k log ↔
      R (.ok (serve c k).1) s (serve c k).2 (log ++ [⟨c, (serve c k).1⟩]) := Iff.rfl

theorem postOn_mono (hQ : ∀ r s k log, Q r s k log → Q' r s k log) (p : Prog S α)
    (h : postOn serve Q p s k log) : postOn serve Q' p s k log :=
  hQ _ _ _ _ h

theorem postOn_and {p : Prog S α} (h : postOn serve Q p s k log) (h' : postOn serve Q' p s k log) :
    postOn serve (fun r s k log => Q r s k log ∧ Q' r s k log) p s k log := ⟨h, h'⟩

/-- What is in the log stays there. -/
theorem postOn_logged (p : Prog S α) {e : Σ c : S.Call, S.Reply c} (he : e ∈ log) :
    postOn serve (fun _ _ _ log => e ∈ log) p s k log := by
  obtain ⟨more, hmore⟩ := execOn_log p s k log
  unfold postOn
  rw [hmore]
  exact List.mem_append_left more he

end Rules

end Coop
