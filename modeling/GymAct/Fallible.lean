import Mathlib.Data.Finset.Lattice.Fold
import Mathlib.Data.Fin.Tuple.Basic
import Mathlib.Data.List.Perm.Basic

/-!
# Programs that raise

Programs over a state that may raise, and may not end : `Prog`. `wp` is their weakest
precondition, with a postcondition for a value, one for an error, and a verdict on a run that
does not end. `loop` repeats a step, at most so many times.

`sortedBy` sorts with a comparison that may raise. `Compares.sortedBy_eq_ok_iff` : where elements of
equal keys compare only within one kind, it succeeds exactly when no two elements of a key
differ in kind.
-/

namespace Fallible

/-! ## Programs -/

/-- A program over states `σ` that raises `ε`; `none` is a run that does not end. -/
abbrev Prog (ε σ α : Type) := ExceptT ε (StateT σ Option) α

section Programs

variable {ε σ α β : Type}

/-- The weakest precondition of a program. -/
def wp (w : Prog ε σ α) (post : α → σ → Prop) (err : ε → σ → Prop) (div : Prop) (s : σ) : Prop :=
  match w s with
  | none => div
  | some (.ok a, s') => post a s'
  | some (.error e, s') => err e s'

/-- A run that does not end. -/
def diverge : Prog ε σ α := fun _ => none

/-- The error of a program, with what it returns. -/
def attempt (w : Prog ε σ α) : Prog ε σ (Except ε α) := fun s =>
  (w s).map fun r => (.ok r.1, r.2)

/-- Repeat a step until it says to stop, at most so many times. -/
def loop (step : β → Prog ε σ (Option β)) : ℕ → β → Prog ε σ Unit
  | 0, _ => diverge
  | fuel + 1, b => do
    match ← step b with
    | none => pure ()
    | some b' => loop step fuel b'

/-- Repeat a step until it answers, at most so many times. -/
def iterate (step : β → Prog ε σ (β ⊕ α)) : ℕ → β → Prog ε σ α
  | 0, _ => diverge
  | fuel + 1, b => do
    match ← step b with
    | .inl b' => iterate step fuel b'
    | .inr a => pure a

variable {post : α → σ → Prop} {err : ε → σ → Prop} {div : Prop} {s : σ}

@[simp]
theorem wp_pure {a : α} : wp (pure a : Prog ε σ α) post err div s ↔ post a s := Iff.rfl

@[simp]
theorem wp_throw {e : ε} : wp (throw e : Prog ε σ α) post err div s ↔ err e s := Iff.rfl

@[simp]
theorem wp_get {post : σ → σ → Prop} :
    wp (get : Prog ε σ σ) post err div s ↔ post s s := Iff.rfl

@[simp]
theorem wp_set {s' : σ} {post : PUnit → σ → Prop} :
    wp (set s' : Prog ε σ PUnit) post err div s ↔ post ⟨⟩ s' := Iff.rfl

@[simp]
theorem wp_modify {f : σ → σ} {post : Unit → σ → Prop} :
    wp (modify f : Prog ε σ Unit) post err div s ↔ post () (f s) := Iff.rfl

@[simp]
theorem wp_diverge : wp (diverge : Prog ε σ α) post err div s ↔ div := Iff.rfl

@[simp]
theorem wp_bind {w : Prog ε σ β} {f : β → Prog ε σ α} :
    wp (w >>= f) post err div s ↔ wp w (fun b s' => wp (f b) post err div s') err div s := by
  have hrun : (w >>= f) s = (w s).bind fun r =>
      match r.1 with
      | .ok b => f b r.2
      | .error e => some (.error e, r.2) := by
    change (w s).bind _ = _
    congr 1
    funext r
    rcases r with ⟨e | b, s'⟩ <;> rfl
  unfold wp
  rw [hrun]
  rcases w s with - | ⟨e | b, s'⟩ <;> rfl

@[simp]
theorem wp_map {f : β → α} {w : Prog ε σ β} :
    wp (f <$> w) post err div s ↔ wp w (fun b => post (f b)) err div s := by
  rw [map_eq_pure_bind, wp_bind]
  rfl

@[simp]
theorem wp_attempt {w : Prog ε σ α} {post : Except ε α → σ → Prop} :
    wp (attempt w) post err div s ↔
      wp w (fun a => post (.ok a)) (fun e => post (.error e)) div s := by
  unfold wp attempt
  rcases w s with - | ⟨e | a, s'⟩ <;> rfl

theorem wp_mono {w : Prog ε σ α} {post' : α → σ → Prop} {err' : ε → σ → Prop}
    (h : wp w post err div s) (hpost : ∀ a s', post a s' → post' a s')
    (herr : ∀ e s', err e s' → err' e s') : wp w post' err' div s := by
  unfold wp at h ⊢
  generalize w s = r at h ⊢
  rcases r with - | ⟨e | a, s'⟩
  · exact h
  · exact herr e s' h
  · exact hpost a s' h

/-- A loop ends if a measure falls with each step, or if not ending is fine. -/
theorem wp_loop {step : β → Prog ε σ (Option β)} {I : β → σ → Prop} {μ : β → σ → ℕ}
    {post : Unit → σ → Prop}
    (hstep : ∀ b s, I b s → wp (step b) (fun next s' =>
      match next with
      | none => post () s'
      | some b' => I b' s' ∧ (div ∨ μ b' s' < μ b s)) err div s) :
    ∀ {fuel : ℕ} {b : β} {s : σ}, I b s → div ∨ μ b s < fuel →
      wp (loop step fuel b) post err div s
  | 0, _, _, _, hfuel => hfuel.resolve_right (Nat.not_lt_zero _)
  | fuel + 1, b, s, hinv, hfuel => by
    rw [loop, wp_bind]
    refine wp_mono (hstep b s hinv) (fun next s' hnext => ?_) fun _ _ => id
    cases next with
    | none => exact hnext
    | some b' =>
      refine wp_loop hstep hnext.1 ?_
      rcases hfuel with hdiv | hlt
      · exact Or.inl hdiv
      · exact hnext.2.imp_right fun hless => by omega

/-- An iteration ends if a measure falls with each step, or if not ending is fine. -/
theorem wp_iterate {step : β → Prog ε σ (β ⊕ α)} {I : β → σ → Prop} {μ : β → ℕ}
    (hstep : ∀ b s, I b s → wp (step b) (fun next s' =>
      match next with
      | .inl b' => I b' s' ∧ (div ∨ μ b' < μ b)
      | .inr a => post a s') err div s) :
    ∀ {fuel : ℕ} {b : β} {s : σ}, I b s → div ∨ μ b < fuel →
      wp (iterate step fuel b) post err div s
  | 0, _, _, _, hfuel => hfuel.resolve_right (Nat.not_lt_zero _)
  | fuel + 1, b, s, hinv, hfuel => by
    rw [iterate, wp_bind]
    refine wp_mono (hstep b s hinv) (fun next s' hnext => ?_) fun _ _ => id
    cases next with
    | inr a => exact hnext
    | inl b' =>
      refine wp_iterate hstep hnext.1 ?_
      rcases hfuel with hdiv | hlt
      · exact Or.inl hdiv
      · exact hnext.2.imp_right fun hless => by omega

/-! ### Runs that return -/

/-- A run that returns a value. -/
def Returns (w : Prog ε σ α) (s : σ) (a : α) (s' : σ) : Prop := w s = some (.ok a, s')

/-- A program returns one value. -/
theorem Returns.unique {w : Prog ε σ α} {a b : α} {s s' s'' : σ} (h : Returns w s a s')
    (h' : Returns w s b s'') : a = b ∧ s' = s'' := by
  obtain ⟨hvalue, hstate⟩ := Prod.mk.inj (Option.some.inj (h.symm.trans h'))
  exact ⟨Except.ok.inj hvalue, hstate⟩

@[simp]
theorem returns_pure_iff {a b : α} {s s' : σ} :
    Returns (pure a : Prog ε σ α) s b s' ↔ b = a ∧ s' = s := by
  constructor
  · intro h
    cases h
    exact ⟨rfl, rfl⟩
  · rintro ⟨rfl, rfl⟩
    rfl

theorem returns_bind_iff {w : Prog ε σ β} {f : β → Prog ε σ α} {a : α} {s s'' : σ} :
    Returns (w >>= f) s a s'' ↔ ∃ b s', Returns w s b s' ∧ Returns (f b) s' a s'' := by
  have hrun : (w >>= f) s = (w s).bind fun r =>
      match r.1 with
      | .ok b => f b r.2
      | .error e => some (.error e, r.2) := by
    change (w s).bind _ = _
    congr 1
    funext r
    rcases r with ⟨e | b, s'⟩ <;> rfl
  unfold Returns
  rw [hrun]
  rcases w s with - | ⟨e | b, s'⟩ <;> simp

/-- What every step of a fold keeps. -/
theorem Returns.foldlM {f : β → α → Prog ε σ β} {I : β → Prop}
    (hstep : ∀ b a s b' s', I b → Returns (f b a) s b' s' → I b') :
    ∀ {l : List α} {b b' : β} {s s' : σ}, I b → Returns (l.foldlM f b) s b' s' → I b'
  | [], _, _, _, _, hb, h => (returns_pure_iff.mp h).1 ▸ hb
  | a :: _, b, b', s, s', hb, h => by
    obtain ⟨c, t, hc, hrest⟩ := returns_bind_iff.mp h
    exact foldlM hstep (hstep b a s c t hb hc) hrest

/-! ### What a program keeps -/

/-- A program ends, its value is as said, and it relates the states before and after it, also
where it raises. -/
def Keeps (R : σ → σ → Prop) (P : α → Prop) (w : Prog ε σ α) : Prop :=
  ∀ s, wp w (fun a s' => P a ∧ R s s') (fun _ => R s) False s

variable {R : σ → σ → Prop} {P : α → Prop}

theorem Keeps.pure (hrefl : ∀ s, R s s) {a : α} (ha : P a) :
    Keeps R P (Pure.pure a : Prog ε σ α) := fun s => ⟨ha, hrefl s⟩

theorem Keeps.throw (hrefl : ∀ s, R s s) (e : ε) : Keeps R P (MonadExcept.throw e : Prog ε σ α) :=
  hrefl

theorem Keeps.mono {P' : α → Prop} {w : Prog ε σ α} (hw : Keeps R P w) (h : ∀ a, P a → P' a) :
    Keeps R P' w := fun s =>
  wp_mono (hw s) (fun a _ ha => ⟨h a ha.1, ha.2⟩) fun _ _ => id

/-- Two programs in a row : what the first keeps, it keeps alone if the second never runs. -/
theorem Keeps.comp {R' R'' : σ → σ → Prop} (htrans : ∀ a b c, R a b → R' b c → R'' a c)
    (hstop : ∀ a b, R a b → R'' a b) {Q : β → Prop} {w : Prog ε σ β} {f : β → Prog ε σ α}
    (hw : Keeps R Q w) (hf : ∀ b, Q b → Keeps R' P (f b)) : Keeps R'' P (w >>= f) := by
  intro s
  rw [wp_bind]
  refine wp_mono (hw s) (fun b s' ⟨hb, hs⟩ => ?_) fun _ s' => hstop s s'
  exact wp_mono (hf b hb s') (fun _ _ ⟨ha, hs'⟩ => ⟨ha, htrans _ _ _ hs hs'⟩) fun _ _ =>
    htrans _ _ _ hs

theorem Keeps.bind (htrans : ∀ a b c, R a b → R b c → R a c) {Q : β → Prop} {w : Prog ε σ β}
    {f : β → Prog ε σ α} (hw : Keeps R Q w) (hf : ∀ b, Q b → Keeps R P (f b)) :
    Keeps R P (w >>= f) :=
  Keeps.comp htrans (fun _ _ => id) hw hf

theorem Keeps.map {f : β → α} {w : Prog ε σ β} (hw : Keeps R (fun b => P (f b)) w) :
    Keeps R P (f <$> w) := by
  intro s
  rw [wp_map]
  exact hw s

theorem Keeps.attempt {w : Prog ε σ α} (hw : Keeps R P w) :
    Keeps R (fun r => ∀ a, r = .ok a → P a) (Fallible.attempt w) := by
  intro s
  rw [wp_attempt]
  refine wp_mono (hw s) (fun a s' ⟨ha, hs⟩ => ⟨fun b hb => ?_, hs⟩) fun e s' hs => ⟨nofun, hs⟩
  rwa [← Except.ok.inj hb]

theorem Keeps.ite {c : Prop} [Decidable c] {w w' : Prog ε σ α} (hw : c → Keeps R P w)
    (hw' : ¬c → Keeps R P w') : Keeps R P (if c then w else w') := by
  split
  · next hc => exact hw hc
  · next hc => exact hw' hc

/-- What a program keeps, as a precondition of what it is to come to. -/
theorem Keeps.wp {w : Prog ε σ α} {post : α → σ → Prop} {err : ε → σ → Prop} {div : Prop} {s : σ}
    (hw : Keeps R P w) (hpost : ∀ a s', P a → R s s' → post a s') (herr : ∀ e s', R s s' → err e s') :
    Fallible.wp w post err div s := by
  have h := hw s
  unfold Fallible.wp at h ⊢
  generalize w s = r at h ⊢
  rcases r with - | ⟨e | a, s'⟩
  · exact h.elim
  · exact herr e s' h
  · exact hpost a s' h.1 h.2

theorem Keeps.wp_bind {Q : β → Prop} {w : Prog ε σ β} {f : β → Prog ε σ α} {post : α → σ → Prop}
    {err : ε → σ → Prop} {div : Prop} {s : σ} (hw : Keeps R Q w)
    (hf : ∀ b s', Q b → R s s' → Fallible.wp (f b) post err div s')
    (herr : ∀ e s', R s s' → err e s') : Fallible.wp (w >>= f) post err div s :=
  Fallible.wp_bind.mpr (hw.wp hf herr)

end Programs

/-! ## Collecting and sorting -/

section Sorting

variable {ε α κ τ : Type}

/-- The results of all components, or the first error. -/
def collect : ∀ {n : ℕ}, (Fin n → Except ε α) → Except ε (Fin n → α)
  | 0, _ => .ok Fin.elim0
  | _ + 1, f => do
    let a ← f 0
    let rest ← collect fun i => f i.succ
    return Fin.cons a rest

/-- Insertion after the elements that are not above. -/
def insertBy (lt : α → α → Except ε Bool) (x : α) : List α → Except ε (List α)
  | [] => .ok [x]
  | y :: ys => do
    if ← lt x y then return x :: y :: ys
    else
      let rest ← insertBy lt x ys
      return y :: rest

/-- `sorted`, by a comparison that may raise. -/
def sortedBy (lt : α → α → Except ε Bool) (l : List α) : Except ε (List α) :=
  l.foldlM (fun acc x => insertBy lt x acc) []

@[simp] theorem ok_bind {β : Type} (a : α) (f : α → Except ε β) : Except.ok a >>= f = f a := rfl

theorem exists_eq_ok_of_isOk {x : Except ε α} (h : x.isOk = true) : ∃ a, x = .ok a := by
  cases x with
  | error e => exact absurd h nofun
  | ok a => exact ⟨a, rfl⟩

/-- A sequence succeeds when both parts do. -/
theorem bind_eq_ok {β : Type} {x : Except ε α} {f : α → Except ε β} {b : β} :
    x >>= f = .ok b ↔ ∃ a, x = .ok a ∧ f a = .ok b := by
  cases x with
  | error e => exact ⟨nofun, fun ⟨_, h, _⟩ => nomatch h⟩
  | ok a => exact ⟨fun h => ⟨a, rfl, h⟩, fun ⟨_, h, hb⟩ => Except.ok.inj h ▸ hb⟩

/-- An error of a sequence is one of its parts'. -/
theorem bind_eq_error {β : Type} {x : Except ε α} {f : α → Except ε β} {e : ε} :
    x >>= f = .error e ↔ x = .error e ∨ ∃ a, x = .ok a ∧ f a = .error e := by
  cases x with
  | error e' =>
    exact ⟨fun h => Or.inl (congrArg _ (Except.error.inj h)),
      fun h => h.elim (fun h => congrArg _ (Except.error.inj h)) fun ⟨_, h, _⟩ => nomatch h⟩
  | ok a =>
    exact ⟨fun h => Or.inr ⟨a, rfl, h⟩,
      fun h => h.elim nofun fun ⟨_, h, he⟩ => Except.ok.inj h ▸ he⟩

theorem mapError_eq_ok {ε' : Type} {x : Except ε α} {f : ε → ε'} {a : α} :
    x.mapError f = .ok a ↔ x = .ok a := by
  cases x <;> simp [Except.mapError]

/-- A fold whose steps succeed. -/
theorem foldlM_eq_ok {β : Type} {f : β → α → Except ε β} {g : β → α → β} :
    ∀ {l : List α} {b : β}, (∀ a ∈ l, ∀ b, f b a = .ok (g b a)) → l.foldlM f b = .ok (l.foldl g b)
  | [], _, _ => rfl
  | a :: _, b, h => bind_eq_ok.mpr ⟨g b a, h a List.mem_cons_self b,
      foldlM_eq_ok fun a' ha' => h a' (List.mem_cons_of_mem _ ha')⟩

theorem mapM_eq_ok {β : Type} {f : α → Except ε β} {g : α → β} :
    ∀ {l : List α}, (∀ a ∈ l, f a = .ok (g a)) → l.mapM f = .ok (l.map g)
  | [], _ => rfl
  | a :: _, h => by
    rw [List.mapM_cons, h a List.mem_cons_self,
      mapM_eq_ok fun a' ha' => h a' (List.mem_cons_of_mem _ ha')]
    rfl

/-- A `mapM` of which every step succeeds, with values told by what `g` reads of them. -/
theorem exists_mapM_map {β γ : Type} {f : α → Except ε β} {g : β → γ} {r : α → γ} :
    ∀ {l : List α}, (∀ a ∈ l, ∃ b, f a = .ok b ∧ g b = r a) →
      ∃ bs, l.mapM f = .ok bs ∧ bs.map g = l.map r
  | [], _ => ⟨[], rfl, rfl⟩
  | a :: l, h => by
    obtain ⟨b, hb, hg⟩ := h a List.mem_cons_self
    obtain ⟨bs, hbs, hgs⟩ := exists_mapM_map fun a' ha' => h a' (List.mem_cons_of_mem _ ha')
    refine ⟨b :: bs, ?_, by rw [List.map_cons, List.map_cons, hg, hgs]⟩
    rw [List.mapM_cons, hb, hbs]
    rfl

/-- What all steps of a fold keep. -/
theorem foldlM_invariant {β : Type} {f : β → α → Except ε β} {I : β → Prop}
    (hstep : ∀ a b b', I b → f b a = .ok b' → I b') :
    ∀ {l : List α} {b b' : β}, I b → l.foldlM f b = .ok b' → I b'
  | [], _, _, hb, h => Except.ok.inj h ▸ hb
  | a :: _, b, b', hb, h => by
    obtain ⟨c, hc, hrest⟩ := bind_eq_ok.mp h
    exact foldlM_invariant hstep (hstep a b c hb hc) hrest

theorem exists_of_mem_mapM {β : Type} {f : α → Except ε β} : ∀ {l : List α} {bs : List β},
    l.mapM f = .ok bs → ∀ b ∈ bs, ∃ a ∈ l, f a = .ok b
  | [], _, h, b, hb => absurd (Except.ok.inj h ▸ hb) List.not_mem_nil
  | a :: l, bs, h, b, hb => by
    rw [List.mapM_cons] at h
    obtain ⟨c, hc, hrest⟩ := bind_eq_ok.mp h
    obtain ⟨cs, hcs, hbs⟩ := bind_eq_ok.mp hrest
    obtain rfl : c :: cs = bs := Except.ok.inj hbs
    rcases List.mem_cons.mp hb with rfl | hb
    · exact ⟨a, List.mem_cons_self, hc⟩
    · obtain ⟨a', ha', hb'⟩ := exists_of_mem_mapM hcs b hb
      exact ⟨a', List.mem_cons_of_mem _ ha', hb'⟩

theorem forall₂_of_mapM {β : Type} {f : α → Except ε β} : ∀ {l : List α} {bs : List β},
    l.mapM f = .ok bs → List.Forall₂ (fun a b => f a = .ok b) l bs
  | [], _, h => by
    obtain rfl := Except.ok.inj h
    exact .nil
  | a :: l, bs, h => by
    rw [List.mapM_cons] at h
    obtain ⟨c, hc, hrest⟩ := bind_eq_ok.mp h
    obtain ⟨cs, hcs, hbs⟩ := bind_eq_ok.mp hrest
    obtain rfl : c :: cs = bs := Except.ok.inj hbs
    exact .cons hc (forall₂_of_mapM hcs)

theorem map_of_mapM {β γ : Type} {f : α → Except ε β} {g : β → γ} {r : α → γ}
    (h : ∀ a b, f a = .ok b → g b = r a) :
    ∀ {l : List α} {bs : List β}, l.mapM f = .ok bs → bs.map g = l.map r
  | [], _, hbs => by
    obtain rfl := Except.ok.inj hbs
    rfl
  | a :: l, bs, hbs => by
    rw [List.mapM_cons] at hbs
    obtain ⟨c, hc, hrest⟩ := bind_eq_ok.mp hbs
    obtain ⟨cs, hcs, hbs⟩ := bind_eq_ok.mp hrest
    obtain rfl : c :: cs = bs := Except.ok.inj hbs
    rw [List.map_cons, List.map_cons, h a c hc, map_of_mapM h hcs]

theorem exists_of_mapM {β : Type} {f : α → Except ε β} : ∀ {l : List α} {bs : List β},
    l.mapM f = .ok bs → ∀ a ∈ l, ∃ b ∈ bs, f a = .ok b
  | [], _, _, _, ha => absurd ha List.not_mem_nil
  | a :: l, bs, h, a', ha => by
    rw [List.mapM_cons] at h
    obtain ⟨c, hc, hrest⟩ := bind_eq_ok.mp h
    obtain ⟨cs, hcs, hbs⟩ := bind_eq_ok.mp hrest
    obtain rfl : c :: cs = bs := Except.ok.inj hbs
    rcases List.mem_cons.mp ha with rfl | ha
    · exact ⟨c, List.mem_cons_self, hc⟩
    · obtain ⟨b, hb, hab⟩ := exists_of_mapM hcs a' ha
      exact ⟨b, List.mem_cons_of_mem _ hb, hab⟩

/-- A value satisfies a postcondition, and an error another. -/
def Meets (post : α → Prop) (err : ε → Prop) : Except ε α → Prop
  | .ok a => post a
  | .error e => err e

theorem Meets.bind {β : Type} {x : Except ε α} {f : α → Except ε β} {post : α → Prop}
    {post' : β → Prop} {err : ε → Prop} (hx : Meets post err x)
    (hf : ∀ a, post a → Meets post' err (f a)) : Meets post' err (x >>= f) := by
  cases x with
  | error e => exact hx
  | ok a => exact hf a hx

/-- A check passes and is passed over. -/
theorem ite_throw_eq_ok {c : Prop} [Decidable c] {e : ε} {x : Except ε α} {a : α} :
    (if c then throw e else x) = .ok a ↔ ¬c ∧ x = .ok a := by
  split
  · next h => exact ⟨nofun, fun h' => absurd h h'.1⟩
  · next h => exact ⟨fun hx => ⟨h, hx⟩, And.right⟩

/-- Whether a mapped result is there. -/
theorem exists_bind_pure_iff {β : Type} {x : Except ε α} {f : α → β} :
    (∃ b, (x >>= fun a => pure (f a)) = .ok b) ↔ ∃ a, x = .ok a := by
  cases x with
  | error e => exact ⟨fun ⟨_, h⟩ => (nomatch h), fun ⟨_, h⟩ => nomatch h⟩
  | ok a => exact ⟨fun _ => ⟨a, rfl⟩, fun _ => ⟨f a, rfl⟩⟩

/-- A sequence whose second part does not ask whether the first one's result is there. -/
theorem exists_bind_bind_pure_iff {β γ : Type} {x : Except ε α} {y : Except ε β} {f : α → β → γ} :
    (∃ c, (x >>= fun a => y >>= fun b => pure (f a b)) = .ok c) ↔
      (∃ a, x = .ok a) ∧ ∃ b, y = .ok b := by
  cases x with
  | error e => exact ⟨fun ⟨_, h⟩ => (nomatch h), fun ⟨⟨_, h⟩, _⟩ => nomatch h⟩
  | ok a => exact exists_bind_pure_iff.trans ⟨fun h => ⟨⟨a, rfl⟩, h⟩, And.right⟩

theorem collect_eq_ok_iff : ∀ {n : ℕ} {f : Fin n → Except ε α} {g : Fin n → α},
    collect f = .ok g ↔ ∀ i, f i = .ok (g i)
  | 0, f, g => ⟨fun _ i => i.elim0, fun _ => congrArg Except.ok (funext fun i => i.elim0)⟩
  | n + 1, f, g => by
    rw [collect, bind_eq_ok]
    constructor
    · rintro ⟨a, ha, h⟩
      obtain ⟨rest, hrest, h⟩ := bind_eq_ok.mp h
      obtain rfl := Except.ok.inj h
      exact Fin.cases ha (collect_eq_ok_iff.mp hrest)
    · intro h
      refine ⟨g 0, h 0, bind_eq_ok.mpr ⟨Fin.tail g, ?_, ?_⟩⟩
      · exact collect_eq_ok_iff.mpr fun i => h i.succ
      · exact congrArg Except.ok (Fin.cons_self_tail g)

theorem exists_collect_iff {n : ℕ} {f : Fin n → Except ε α} :
    (∃ g, collect f = .ok g) ↔ ∀ i, ∃ a, f i = .ok a := by
  simp only [collect_eq_ok_iff]
  exact ⟨fun ⟨g, hg⟩ i => ⟨g i, hg i⟩, fun h => ⟨fun i => (h i).choose, fun i => (h i).choose_spec⟩⟩

theorem exists_of_collect_eq_error : ∀ {n : ℕ} {f : Fin n → Except ε α} {e : ε},
    collect f = .error e → ∃ i, f i = .error e
  | 0, _, _, h => nomatch h
  | n + 1, f, e, h => by
    rw [collect, bind_eq_error] at h
    rcases h with h | ⟨a, -, h⟩
    · exact ⟨0, h⟩
    rcases bind_eq_error.mp h with h | ⟨rest, -, h⟩
    · obtain ⟨i, hi⟩ := exists_of_collect_eq_error h
      exact ⟨i.succ, hi⟩
    · exact nomatch h

theorem Meets.map {β : Type} {x : Except ε α} {f : α → β} {err : ε → Prop}
    (hx : Meets (fun _ => True) err x) :
    Meets (fun _ => True) err (x >>= fun a => pure (f a)) :=
  hx.bind fun _ _ => trivial

theorem Meets.collect {post : α → Prop} {err : ε → Prop} {n : ℕ} {f : Fin n → Except ε α}
    (hf : ∀ i, Meets post err (f i)) : Meets (fun g => ∀ i, post (g i)) err (collect f) := by
  cases hg : Fallible.collect f with
  | error e =>
    obtain ⟨i, hi⟩ := exists_of_collect_eq_error hg
    have := hf i
    rwa [hi] at this
  | ok g =>
    intro i
    have := hf i
    rwa [collect_eq_ok_iff.mp hg i] at this

/-- Sorting raises what the comparison raises. -/
theorem Meets.insertBy {lt : α → α → Except ε Bool} {err : ε → Prop}
    (hlt : ∀ a b, Meets (fun _ => True) err (lt a b)) (x : α) :
    ∀ l : List α, Meets (fun _ => True) err (insertBy lt x l)
  | [] => trivial
  | y :: ys => (hlt x y).bind fun below _ => by
    cases below with
    | true => trivial
    | false => exact (Meets.insertBy hlt x ys).map

theorem Meets.sortedBy {lt : α → α → Except ε Bool} {err : ε → Prop}
    (hlt : ∀ a b, Meets (fun _ => True) err (lt a b)) (l : List α) :
    Meets (fun _ => True) err (sortedBy lt l) := by
  have hfold : ∀ l acc : List α,
      Meets (fun _ => True) err (l.foldlM (fun acc x => Fallible.insertBy lt x acc) acc) := by
    intro l
    induction l with
    | nil => exact fun _ => trivial
    | cons x l ih => exact fun acc => (Meets.insertBy hlt x acc).bind fun acc' _ => ih acc'
  exact hfold l []

section Uniform

variable {key : α → κ} {kind : α → τ}

/-- No two elements of one key differ in kind. -/
def Uniform (key : α → κ) (kind : α → τ) (l : List α) : Prop :=
  ∀ a ∈ l, ∀ b ∈ l, key a = key b → kind a = kind b

theorem Uniform.of_subset {l l' : List α} (h : Uniform key kind l) (hsub : l' ⊆ l) :
    Uniform key kind l' :=
  fun a ha b hb => h a (hsub ha) b (hsub hb)

theorem uniform_cons {x : α} {l : List α} :
    Uniform key kind (x :: l) ↔
      Uniform key kind l ∧ ∀ a ∈ l, key x = key a → kind x = kind a := by
  constructor
  · exact fun h => ⟨h.of_subset (List.subset_cons_self x l), fun a ha =>
      h x List.mem_cons_self a (List.mem_cons_of_mem _ ha)⟩
  · rintro ⟨h, hx⟩ a ha b hb hkey
    rcases List.mem_cons.mp ha with rfl | hal
    · rcases List.mem_cons.mp hb with rfl | hbl
      · rfl
      · exact hx b hbl hkey
    · rcases List.mem_cons.mp hb with rfl | hbl
      · exact (hx a hal hkey.symm).symm
      · exact h a hal b hbl hkey

end Uniform

/-- A comparison by a key, within one kind of each key. -/
structure Compares [LinearOrder κ] (lt : α → α → Except ε Bool) (key : α → κ) (kind : α → τ) :
    Prop where
  isOk : ∀ a b, (∃ r, lt a b = .ok r) ↔ (key a = key b → kind a = kind b)
  le_of_true : ∀ {a b}, lt a b = .ok true → key a ≤ key b
  le_of_false : ∀ {a b}, lt a b = .ok false → key b ≤ key a

section Compares

variable [LinearOrder κ] {lt : α → α → Except ε Bool} {key : α → κ} {kind : α → τ}

theorem insertBy_perm {x : α} : ∀ {l l' : List α}, insertBy lt x l = .ok l' → l'.Perm (x :: l)
  | [], l', h => by
    obtain rfl := Except.ok.inj h
    exact .refl _
  | y :: ys, l', h => by
    obtain ⟨below, -, h⟩ := bind_eq_ok.mp h
    cases below with
    | true =>
      obtain rfl := Except.ok.inj h
      exact .refl _
    | false =>
      obtain ⟨rest, hrest, h⟩ := bind_eq_ok.mp h
      obtain rfl := Except.ok.inj h
      exact ((insertBy_perm hrest).cons y).trans (.swap x y ys)

/-- What an insertion that succeeds shows of the element, and keeps. -/
theorem Compares.insertBy (h : Compares lt key kind) {x : α} : ∀ {l l' : List α},
    l.Pairwise (key · ≤ key ·) → Uniform key kind l → Fallible.insertBy lt x l = .ok l' →
    l'.Pairwise (key · ≤ key ·) ∧ ∀ a ∈ l, key x = key a → kind x = kind a
  | [], l', _, _, hl' => by
    obtain rfl := Except.ok.inj hl'
    exact ⟨List.pairwise_singleton _ _, nofun⟩
  | y :: ys, l', hsorted, hkinds, hl' => by
    obtain ⟨below, hbelow, hl'⟩ := bind_eq_ok.mp hl'
    have hxy := (h.isOk x y).mp ⟨below, hbelow⟩
    obtain ⟨hy, hys⟩ := List.pairwise_cons.mp hsorted
    cases below with
    | true =>
      obtain rfl := Except.ok.inj hl'
      have hle := h.le_of_true hbelow
      refine ⟨List.pairwise_cons.mpr ⟨fun a ha => ?_, hsorted⟩, fun a ha hxa => ?_⟩
      · rcases List.mem_cons.mp ha with rfl | ha
        · exact hle
        · exact hle.trans (hy a ha)
      · -- an element of the same key lies above the first one, which then has that key
        rcases List.mem_cons.mp ha with rfl | hmem
        · exact hxy hxa
        · have hkey : key x = key y := le_antisymm hle (hxa ▸ hy a hmem)
          exact (hxy hkey).trans (hkinds y List.mem_cons_self a ha (hkey.symm.trans hxa))
    | false =>
      obtain ⟨rest, hrest, hl'⟩ := bind_eq_ok.mp hl'
      obtain rfl := Except.ok.inj hl'
      obtain ⟨hsorted', hkinds'⟩ :=
        h.insertBy hys (hkinds.of_subset (List.subset_cons_self y ys)) hrest
      refine ⟨List.pairwise_cons.mpr ⟨fun a ha => ?_, hsorted'⟩, fun a ha hxa => ?_⟩
      · rcases List.mem_cons.mp ((insertBy_perm hrest).mem_iff.mp ha) with rfl | ha
        · exact h.le_of_false hbelow
        · exact hy a ha
      · rcases List.mem_cons.mp ha with rfl | ha
        · exact hxy hxa
        · exact hkinds' a ha hxa

theorem Compares.exists_insertBy (h : Compares lt key kind) {x : α} : ∀ {l : List α},
    (∀ a ∈ l, key x = key a → kind x = kind a) → ∃ l', Fallible.insertBy lt x l = .ok l'
  | [], _ => ⟨_, rfl⟩
  | y :: ys, hx => by
    obtain ⟨below, hbelow⟩ := (h.isOk x y).mpr (hx y List.mem_cons_self)
    obtain ⟨rest, hrest⟩ := h.exists_insertBy fun a ha => hx a (List.mem_cons_of_mem _ ha)
    cases below with
    | true => exact ⟨_, bind_eq_ok.mpr ⟨true, hbelow, rfl⟩⟩
    | false => exact ⟨_, bind_eq_ok.mpr ⟨false, hbelow, bind_eq_ok.mpr ⟨rest, hrest, rfl⟩⟩⟩

/-- Inserting one element after another succeeds exactly when all go together. -/
theorem Compares.foldlM_insertBy_iff (h : Compares lt key kind) : ∀ {l acc : List α},
    acc.Pairwise (key · ≤ key ·) → Uniform key kind acc →
    ((∃ l', l.foldlM (fun acc x => Fallible.insertBy lt x acc) acc = .ok l') ↔
      Uniform key kind (l ++ acc))
  | [], acc, _, hacc => ⟨fun _ => hacc, fun _ => ⟨acc, rfl⟩⟩
  | x :: l, acc, hsorted, hacc => by
    have hswap {acc' : List α} (hperm : acc'.Perm (x :: acc)) :
        Uniform key kind (l ++ acc') ↔ Uniform key kind (x :: l ++ acc) := by
      have hperm' : (l ++ acc').Perm (x :: l ++ acc) :=
        (hperm.append_left l).trans List.perm_middle
      exact ⟨fun h => h.of_subset hperm'.symm.subset, fun h => h.of_subset hperm'.subset⟩
    constructor
    · rintro ⟨l', hl'⟩
      obtain ⟨acc', hinsert, hl'⟩ := bind_eq_ok.mp hl'
      obtain ⟨hsorted', hx⟩ := h.insertBy hsorted hacc hinsert
      have hacc' : Uniform key kind acc' :=
        (uniform_cons.mpr ⟨hacc, hx⟩).of_subset (insertBy_perm hinsert).subset
      exact (hswap (insertBy_perm hinsert)).mp
        ((h.foldlM_insertBy_iff hsorted' hacc').mp ⟨l', hl'⟩)
    · intro hall
      have hcons : Uniform key kind (x :: acc) := hall.of_subset (by simp)
      obtain ⟨acc', hinsert⟩ := h.exists_insertBy (uniform_cons.mp hcons).2
      obtain ⟨hsorted', -⟩ := h.insertBy hsorted hacc hinsert
      obtain ⟨l', hl'⟩ := (h.foldlM_insertBy_iff hsorted'
        (hcons.of_subset (insertBy_perm hinsert).subset)).mpr ((hswap (insertBy_perm hinsert)).mpr hall)
      exact ⟨l', bind_eq_ok.mpr ⟨acc', hinsert, hl'⟩⟩

theorem Compares.sortedBy_eq_ok_iff (h : Compares lt key kind) {l : List α} :
    (∃ l', sortedBy lt l = .ok l') ↔ Uniform key kind l := by
  rw [sortedBy, h.foldlM_insertBy_iff .nil nofun, List.append_nil]

end Compares

end Sorting

end Fallible
