import GymAct.Coop

/-!
# What programs keep and return

`Yields A I Q p` : as long as `A` admits the answers, `p` keeps the invariant `I` of the shared
state however it ends, and what it returns satisfies `Q`. There is one rule for each construct of
a program. Of a run it is enough that the answers it was given are admitted (`Yields.exec`).
-/

namespace Coop

open Prog

variable {S : Sig} {α β : Type} {A : (c : S.Call) → S.Reply c → Prop}

/-- `post` of a run whose own calls got admitted answers. -/
theorem exec_of_post_answered {Q : Except S.Err α → S.State → Log S → Prop} {ω : Oracle S}
    (p : Prog S α) :
    ∀ {s log}, (∀ more, (exec ω p s log).2.2 = log ++ more → ∀ e ∈ more, A e.1 e.2) →
      post A Q p s log → Q (exec ω p s log).1 (exec ω p s log).2.1 (exec ω p s log).2.2 := by
  induction p with
  | ret r => exact fun _ h => h
  | get k ih => exact fun {s _} hA h => ih s hA h
  | put s k ih => exact ih
  | ask c k ih | await c k ih =>
    intro s log hA h
    obtain ⟨rest, hrest⟩ := exec_log ω (k (ω log c)) s (log ++ [⟨c, ω log c⟩])
    have hmore := hA (⟨c, ω log c⟩ :: rest) (by rw [exec, hrest]; simp)
    refine ih (ω log c) (fun more heq e he => ?_) (h _ (hmore _ List.mem_cons_self))
    rw [hrest] at heq
    exact hmore e (List.mem_cons_of_mem _ (List.append_cancel_left heq ▸ he))
  | acquire l k ih | release l k ih => exact ih

/-- A run from a log is a run of its own, whose outside saw that log. -/
theorem exec_shift (ω : Oracle S) (p : Prog S α) (log : Log S) :
    ∀ s more, exec ω p s (log ++ more) =
      ((exec (fun l => ω (log ++ l)) p s more).1, (exec (fun l => ω (log ++ l)) p s more).2.1,
        log ++ (exec (fun l => ω (log ++ l)) p s more).2.2) := by
  induction p with
  | ret r => exact fun _ _ => rfl
  | get k ih => exact fun s more => ih s s more
  | put s k ih => exact fun _ more => ih s more
  | ask c k ih | await c k ih =>
    intro s more
    have hcall := ih (ω (log ++ more) c) s (more ++ [⟨c, ω (log ++ more) c⟩])
    rw [← List.append_assoc] at hcall
    exact hcall
  | acquire l k ih | release l k ih => exact ih

/-- `p` keeps `I`, and returns only what satisfies `Q`. -/
def Yields (A : (c : S.Call) → S.Reply c → Prop) (I : S.State → Prop) (Q : α → Prop)
    (p : Prog S α) : Prop :=
  ∀ s log, I s → post A (fun r s' _ => I s' ∧ ∀ a, r = .ok a → Q a) p s log

namespace Yields

variable {I : S.State → Prop} {Q Q' : α → Prop}

theorem pure {a : α} (h : Q a) : Yields A I Q (pure a : Prog S α) :=
  fun _ _ hI => ⟨hI, by rintro _ ⟨rfl⟩; exact h⟩

theorem raise (e : S.Err) : Yields A I Q (raise e : Prog S α) := fun _ _ hI => ⟨hI, nofun⟩

theorem lift {r : Except S.Err α} (h : ∀ a, r = .ok a → Q a) : Yields A I Q (Prog.lift r) :=
  fun _ _ hI => ⟨hI, h⟩

theorem getState : Yields A I I (getState : Prog S S.State) :=
  fun _ _ hI => ⟨hI, by rintro _ ⟨rfl⟩; exact hI⟩

theorem modify {f : S.State → S.State} (hf : ∀ s, I s → I (f s)) :
    Yields A I (fun _ => True) (modify f) :=
  fun s _ hI => ⟨hf s hI, fun _ _ => trivial⟩

theorem awaitCall {c : S.Call} {Q : S.Reply c → Prop} (h : ∀ r, A c r → Q r) :
    Yields A I Q (awaitCall c) :=
  fun _ _ hI r hr => ⟨hI, by rintro _ ⟨rfl⟩; exact h r hr⟩

theorem askCall {c : S.Call} {Q : S.Reply c → Prop} (h : ∀ r, A c r → Q r) :
    Yields A I Q (askCall c) :=
  fun _ _ hI r hr => ⟨hI, by rintro _ ⟨rfl⟩; exact h r hr⟩

theorem mono {p : Prog S α} (hp : Yields A I Q p) (h : ∀ a, Q a → Q' a) : Yields A I Q' p :=
  fun s log hI => post_mono (fun _ _ _ ⟨hI', hQ⟩ => ⟨hI', fun a ha => h a (hQ a ha)⟩) p
    (hp s log hI)

theorem bind {R : β → Prop} {p : Prog S α} {f : α → Prog S β} (hp : Yields A I Q p)
    (hf : ∀ a, Q a → Yields A I R (f a)) : Yields A I R (p >>= f) := by
  intro s log hI
  refine (post_bind p f).mpr (post_mono (fun r s' log' h => ?_) p (hp s log hI))
  obtain ⟨hI', hQ⟩ := h
  rcases r with e | a
  · exact ⟨hI', nofun⟩
  · exact hf a (hQ a rfl) s' log' hI'

theorem map {R : β → Prop} {p : Prog S α} {f : α → β} (hp : Yields A I Q p)
    (hf : ∀ a, Q a → R (f a)) : Yields A I R (f <$> p) :=
  hp.bind fun a ha => .pure (hf a ha)

/-- A run whose own calls got admitted answers. -/
theorem exec {p : Prog S α} (hp : Yields A I Q p) {ω : Oracle S} {s : S.State} {log : Log S}
    (hI : I s) (hA : ∀ more, (exec ω p s log).2.2 = log ++ more → ∀ e ∈ more, A e.1 e.2) :
    I (exec ω p s log).2.1 ∧ ∀ a, (exec ω p s log).1 = .ok a → Q a :=
  exec_of_post_answered p hA (hp s log hI)

end Yields

end Coop
