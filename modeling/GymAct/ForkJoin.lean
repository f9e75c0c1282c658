import Mathlib.Algebra.BigOperators.Fin
import Mathlib.Algebra.Order.BigOperators.Group.Finset
import Mathlib.Data.Fintype.Card

/-!
# Threads that fork and join

A `Thread` calls a shared object and forks others. A pool of so many workers runs the forked
threads, which are started in their order; the thread goes on with their results when all are done.
One step (`Step`) is one call of one thread, answered at once, the start of a thread or a join : a
schedule is any sequence of steps.

`Ends` : every schedule ends, and how. `Gives` is what a thread answers, and spends, where each
call is answered in one way; such a thread ends so under every schedule that leaves it enough to
spend (`LiveGives.ends`).
-/

namespace ForkJoin

/-- The calls of a shared object. -/
structure Sig where
  Op : Type
  Answer : Op → Type

/-- A thread that returns an `α`; the threads that it forks return a `ρ`. -/
inductive Thread (S : Sig) (ρ : Type) : Type → Type 1
  | ret {α : Type} (a : α) : Thread S ρ α
  | diverge {α : Type} : Thread S ρ α
  | call {α : Type} (op : S.Op) (k : S.Answer op → Thread S ρ α) : Thread S ρ α
  | fork {α : Type} (workers n : ℕ) (threads : Fin n → Thread S ρ ρ)
      (k : (Fin n → ρ) → Thread S ρ α) : Thread S ρ α

namespace Thread

variable {S : Sig} {ρ α β γ : Type}

protected def bind : Thread S ρ α → (α → Thread S ρ β) → Thread S ρ β
  | ret a, f => f a
  | diverge, _ => diverge
  | call op k, f => call op fun r => (k r).bind f
  | fork workers n threads k, f => fork workers n threads fun r => (k r).bind f

instance : Monad (Thread S ρ) where
  pure := ret
  bind := Thread.bind

end Thread

/-- A thread that has begun : the threads it forked are started up to some index. -/
inductive Live (S : Sig) (ρ : Type) : Type → Type 1
  | running {α : Type} (t : Thread S ρ α) : Live S ρ α
  | joining {α : Type} (workers n started : ℕ) (threads : Fin n → Live S ρ ρ)
      (k : (Fin n → ρ) → Thread S ρ α) : Live S ρ α

open Thread Live

variable {S : Sig} {σ ρ α β : Type}

/-- Whether a thread is done. -/
def Live.done : Live S ρ α → Bool
  | running (ret _) => true
  | _ => false

theorem Live.done_iff {l : Live S ρ α} : l.done = true ↔ ∃ a, l = running (ret a) := by
  constructor
  · intro h
    rcases l with (_ | _ | _ | _) | _
    · exact ⟨_, rfl⟩
    all_goals cases h
  · rintro ⟨a, rfl⟩
    rfl

/-- The workers that are busy. -/
def busy {n : ℕ} (started : ℕ) (threads : Fin n → Live S ρ ρ) : ℕ :=
  (Finset.univ.filter fun i : Fin n => i.val < started ∧ (threads i).done = false).card

/-- One step of one thread. -/
inductive Step (answers : (op : S.Op) → σ → S.Answer op → σ → Prop) :
    {α : Type} → Live S ρ α → σ → Live S ρ α → σ → Prop
  | call {α : Type} {op : S.Op} {k : S.Answer op → Thread S ρ α} {s s' : σ} {r : S.Answer op}
      (h : answers op s r s') : Step answers (running (call op k)) s (running (k r)) s'
  | diverge {α : Type} {s : σ} :
      Step answers (running (diverge : Thread S ρ α)) s (running diverge) s
  | fork {α : Type} {workers n : ℕ} {threads : Fin n → Thread S ρ ρ} {k : (Fin n → ρ) → Thread S ρ α}
      {s : σ} : Step answers (running (fork workers n threads k)) s
        (joining workers n 0 (fun i => running (threads i)) k) s
  | start {α : Type} {workers n started : ℕ} {threads : Fin n → Live S ρ ρ}
      {k : (Fin n → ρ) → Thread S ρ α} {s : σ} (hstarted : started < n)
      (hbusy : busy started threads < workers) :
      Step answers (joining workers n started threads k) s (joining workers n (started + 1) threads k) s
  | child {α : Type} {workers n started : ℕ} {threads : Fin n → Live S ρ ρ}
      {k : (Fin n → ρ) → Thread S ρ α} {s s' : σ} (i : Fin n) (hi : i.val < started)
      {l : Live S ρ ρ} (h : Step answers (threads i) s l s') :
      Step answers (joining workers n started threads k) s
        (joining workers n started (Function.update threads i l) k) s'
  | join {α : Type} {workers n : ℕ} {threads : Fin n → Live S ρ ρ} {k : (Fin n → ρ) → Thread S ρ α}
      {s : σ} {r : Fin n → ρ} (h : ∀ i, threads i = running (ret (r i))) :
      Step answers (joining workers n n threads k) s (running (k r)) s

/-- Every schedule ends, with a value and a state as said. -/
inductive Ends (answers : (op : S.Op) → σ → S.Answer op → σ → Prop) (post : α → σ → Prop) :
    Live S ρ α → σ → Prop
  | ret {a : α} {s : σ} (h : post a s) : Ends answers post (running (ret a)) s
  | step {l : Live S ρ α} {s : σ} (hnext : ∃ l' s', Step answers l s l' s')
      (hall : ∀ l' s', Step answers l s l' s' → Ends answers post l' s') : Ends answers post l s

theorem Ends.mono {answers : (op : S.Op) → σ → S.Answer op → σ → Prop} {post post' : α → σ → Prop}
    {l : Live S ρ α} {s : σ} (h : Ends answers post l s) (hpost : ∀ a s, post a s → post' a s) :
    Ends answers post' l s := by
  induction h with
  | ret h => exact .ret (hpost _ _ h)
  | step hnext _ ih => exact .step hnext ih

/-! ## Threads whose calls are answered in one way -/

/-- A thread returns a value, if each call has its answer; what it spends and how many steps it
takes. -/
inductive Gives (answer : (op : S.Op) → S.Answer op) (weight : S.Op → ℕ) :
    {α : Type} → Thread S ρ α → α → ℕ → ℕ → Prop
  | ret {α : Type} (a : α) : Gives answer weight (ret a) a 0 0
  | call {α : Type} {op : S.Op} {k : S.Answer op → Thread S ρ α} {a : α} {c m : ℕ}
      (h : Gives answer weight (k (answer op)) a c m) :
      Gives answer weight (call op k) a (weight op + c) (m + 1)
  | fork {α : Type} {workers n : ℕ} {threads : Fin n → Thread S ρ ρ}
      {k : (Fin n → ρ) → Thread S ρ α} {r : Fin n → ρ} {cost steps : Fin n → ℕ} {a : α} {c m : ℕ}
      (hworkers : 0 < workers) (h : ∀ i, Gives answer weight (threads i) (r i) (cost i) (steps i))
      (hk : Gives answer weight (k r) a c m) :
      Gives answer weight (fork workers n threads k) a (∑ i, cost i + c) (∑ i, steps i + n + m + 2)

/-- The same, for a thread that has begun. -/
inductive LiveGives (answer : (op : S.Op) → S.Answer op) (weight : S.Op → ℕ) :
    {α : Type} → Live S ρ α → α → ℕ → ℕ → Prop
  | running {α : Type} {t : Thread S ρ α} {a : α} {c m : ℕ} (h : Gives answer weight t a c m) :
      LiveGives answer weight (running t) a c m
  | joining {α : Type} {workers n started : ℕ} {threads : Fin n → Live S ρ ρ}
      {k : (Fin n → ρ) → Thread S ρ α} {r : Fin n → ρ} {cost steps : Fin n → ℕ} {a : α} {c m : ℕ}
      (hworkers : 0 < workers) (hstarted : started ≤ n)
      (h : ∀ i, LiveGives answer weight (threads i) (r i) (cost i) (steps i))
      (hk : Gives answer weight (k r) a c m) :
      LiveGives answer weight (joining workers n started threads k) a (∑ i, cost i + c)
        (∑ i, steps i + (n - started) + m + 1)

/-- Each call has its answer, and spends what it weighs, while the limit allows it. -/
structure Metered (answers : (op : S.Op) → σ → S.Answer op → σ → Prop)
    (answer : (op : S.Op) → S.Answer op) (weight : S.Op → ℕ) (spent : σ → ℕ) (limit : ℕ) :
    Prop where
  exact : ∀ {op s r s'}, spent s + weight op ≤ limit → answers op s r s' →
    r = answer op ∧ spent s' = spent s + weight op
  total : ∀ op s, spent s + weight op ≤ limit → ∃ s', answers op s (answer op) s'

section Metered

variable {answers : (op : S.Op) → σ → S.Answer op → σ → Prop} {answer : (op : S.Op) → S.Answer op}
  {weight : S.Op → ℕ} {spent : σ → ℕ} {limit : ℕ}

theorem Gives.bind {t : Thread S ρ α} {f : α → Thread S ρ β} {a : α} {b : β} {c c' m m' : ℕ}
    (ht : Gives answer weight t a c m) (hf : Gives answer weight (f a) b c' m') :
    Gives answer weight (t >>= f) b (c + c') (m + m') := by
  induction ht with
  | ret a =>
    rw [Nat.zero_add, Nat.zero_add]
    exact hf
  | call h ih =>
    rw [Nat.add_assoc, Nat.add_right_comm]
    exact .call (ih hf)
  | @fork _ _ n threads k _ cost steps _ c m hworkers h hk _ ih =>
    have hfork := Gives.fork (k := fun r => k r >>= f) hworkers h (ih hf)
    rw [Nat.add_assoc, show ∑ i, steps i + n + m + 2 + m' = ∑ i, steps i + n + (m + m') + 2 by omega]
    exact hfork

theorem sum_update_add {n : ℕ} (f : Fin n → ℕ) (i : Fin n) (b : ℕ) :
    ∑ j, Function.update f i b j + f i = ∑ j, f j + b := by
  rw [Finset.sum_update_of_mem (Finset.mem_univ i), ← Finset.sum_sdiff (Finset.subset_univ {i}),
    Finset.sum_singleton]
  omega

theorem LiveGives.of_done {a b : α} {c m : ℕ}
    (h : LiveGives answer weight (Live.running (Thread.ret b) : Live S ρ α) a c m) :
    a = b ∧ c = 0 := by
  rcases h with ⟨h⟩
  cases h
  exact ⟨rfl, rfl⟩

/-- A step spends what the thread has left to spend less. -/
theorem LiveGives.step (hm : Metered answers answer weight spent limit) {l l' : Live S ρ α}
    {s s' : σ} (h : Step answers l s l' s') : ∀ {a : α} {c m : ℕ}, LiveGives answer weight l a c m →
      spent s + c ≤ limit → ∃ c' m', LiveGives answer weight l' a c' m' ∧ m' < m ∧
        spent s' + c' = spent s + c := by
  induction h with
  | call h =>
    rintro a c m ⟨hgives⟩ hspent
    cases hgives with
    | call hgives =>
      obtain ⟨rfl, hs'⟩ := hm.exact (by omega) h
      exact ⟨_, _, .running hgives, Nat.lt_succ_self _, by omega⟩
  | diverge => rintro a c m ⟨⟨⟩⟩
  | fork =>
    rintro a c m ⟨hgives⟩ _
    cases hgives with
    | fork hworkers h hk =>
      exact ⟨_, _, .joining hworkers (Nat.zero_le _) (fun i => .running (h i)) hk, by omega, rfl⟩
  | start hstarted =>
    rintro a c m hgives _
    cases hgives with
    | joining hworkers _ h hk => exact ⟨_, _, .joining hworkers hstarted h hk, by omega, rfl⟩
  | @child _ _ _ _ threads _ _ _ i _ l hchild ih =>
    rintro a c m hgives hspent
    cases hgives with
    | @joining _ _ _ _ _ _ r cost steps _ c m hworkers hstarted h hk =>
      have hcost : cost i ≤ ∑ j, cost j := Finset.single_le_sum (fun _ _ => Nat.zero_le _) (Finset.mem_univ i)
      obtain ⟨c', m', hl, hlt, hspent'⟩ := ih (h i) (by omega)
      have hcosts := sum_update_add cost i c'
      have hsteps := sum_update_add steps i m'
      have hthreads (j : Fin _) : LiveGives answer weight (Function.update threads i l j) (r j)
          (Function.update cost i c' j) (Function.update steps i m' j) := by
        by_cases hj : j = i
        · subst hj
          simpa only [Function.update_self] using hl
        · simpa only [Function.update_of_ne hj] using h j
      exact ⟨_, _, .joining hworkers hstarted hthreads hk, by omega, by omega⟩
  | @join _ _ n threads k s r h =>
    rintro a c m hgives _
    cases hgives with
    | @joining _ _ _ _ _ _ r' cost steps _ c m hworkers _ h' hk =>
      have hdone (i : Fin n) : r' i = r i ∧ cost i = 0 := by
        have hgives := h' i
        rw [h i] at hgives
        exact hgives.of_done
      obtain rfl : r' = r := funext fun i => (hdone i).1
      refine ⟨c, m, .running hk, by omega, ?_⟩
      rw [Finset.sum_eq_zero fun i _ => (hdone i).2, Nat.zero_add]

/-- A thread that is not done can go on. -/
theorem LiveGives.progress (hm : Metered answers answer weight spent limit) {l : Live S ρ α} {a : α}
    {c m : ℕ} (h : LiveGives answer weight l a c m) {s : σ} (hspent : spent s + c ≤ limit) :
    l = Live.running (Thread.ret a) ∨ ∃ l' s', Step answers l s l' s' := by
  induction h with
  | running h =>
    cases h with
    | ret a => exact .inl rfl
    | @call _ op _ _ _ _ h =>
      obtain ⟨s', hs'⟩ := hm.total op s (by omega)
      exact .inr ⟨_, s', .call hs'⟩
    | fork => exact .inr ⟨_, s, .fork⟩
  | @joining _ workers n started threads k r cost steps _ c m hworkers hstarted h hk ih =>
    refine .inr ?_
    have hchild (i : Fin n) : threads i = Live.running (Thread.ret (r i)) ∨
        ∃ l' s', Step answers (threads i) s l' s' := by
      have hcost : cost i ≤ ∑ j, cost j :=
        Finset.single_le_sum (fun _ _ => Nat.zero_le _) (Finset.mem_univ i)
      exact ih i (by omega)
    by_cases hbusy : ∃ i : Fin n, i.val < started ∧ (threads i).done = false
    · obtain ⟨i, hi, hdone⟩ := hbusy
      rcases hchild i with hret | ⟨l', s', hstep⟩
      · rw [hret] at hdone
        cases hdone
      · exact ⟨_, s', .child i hi hstep⟩
    · have hdone (i : Fin n) (hi : i.val < started) : (threads i).done = true := by
        by_contra h
        exact hbusy ⟨i, hi, Bool.eq_false_of_not_eq_true h⟩
      have hidle : busy started threads = 0 := by
        rw [busy, Finset.card_eq_zero, Finset.filter_eq_empty_iff]
        exact fun i _ hi => hbusy ⟨i, hi⟩
      rcases hstarted.lt_or_eq with hlt | rfl
      · exact ⟨_, s, .start hlt (by omega)⟩
      · choose r' hr' using fun i : Fin started => Live.done_iff.mp (hdone i i.isLt)
        exact ⟨_, s, .join hr'⟩

/-- A thread that is left enough to spend ends as its answers say, under every schedule. -/
theorem LiveGives.ends (hm : Metered answers answer weight spent limit) {l : Live S ρ α} {a : α}
    {c m : ℕ} (h : LiveGives answer weight l a c m) {s : σ} (hspent : spent s + c ≤ limit) :
    Ends answers (fun a' s' => a' = a ∧ spent s' = spent s + c) l s := by
  induction m using Nat.strong_induction_on generalizing l c s with
  | _ m ih =>
    rcases h.progress hm hspent with rfl | hnext
    · rcases h with ⟨⟨⟩⟩
      exact .ret ⟨rfl, rfl⟩
    · refine .step hnext fun l' s' hstep => ?_
      obtain ⟨c', m', hl', hlt, hspent'⟩ := h.step hm hstep hspent
      have hends := ih m' hlt hl' (s := s') (by omega)
      rwa [hspent'] at hends

end Metered

end ForkJoin
