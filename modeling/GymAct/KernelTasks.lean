import GymAct.KernelRules
import GymAct.Schedule

/-!
# Concurrent kernel operations

Any number of tasks over one `GymAct`, task `t` calling the operation `ops t`, in any
order of suspensions and lock grants (`concurrent`). The operations a discipline has
nothing to say about are calm, which is a law of operations (`calm_law`).
-/

namespace GymAct

open Coop Coop.Prog Coop.Discipline

variable {Λ : Type}

/-- What happens in a run of concurrent operations. -/
abbrev KernelEvent (Λ : Type) := Event (kernelSig Λ) Outcome

/-- The shared tables with what happened so far. -/
abbrev KernelStore (Λ : Type) := Store (kernelSig Λ) Outcome

/-- A `GymAct` before any of the calls. -/
def concurrent (rt : Runtime Λ) (ops : ℕ → Op) (w : World Λ) : Config (kernelSig Λ) Outcome :=
  Config.initial w fun t => (ops t).program rt

/-- The environment of an episode was torn down by `teardown`. -/
def TornDown (episodeId : String) (history : List (KernelEvent Λ)) : Prop :=
  ∃ t env, .reply t (.teardown (.teardown episodeId) env) (.ok ()) ∈ history

theorem TornDown.append {episodeId : String} {history : List (KernelEvent Λ)}
    (h : TornDown episodeId history) (more : List (KernelEvent Λ)) :
    TornDown episodeId (history ++ more) := by
  obtain ⟨t, env, h⟩ := h
  exact ⟨t, env, List.mem_append_left _ h⟩

/-! ## Calm operations -/

section Calm

variable {rt : Runtime Λ} {D : Discipline (kernelSig Λ) Outcome} {t : ℕ} {quiet : Call → Prop}
  {plain : Receipt → Prop} {O : Set LockId} {P : KernelStore Λ → Prop}

/-- Recording a receipt that disturbs nobody. -/
theorem calm_record (hdrawn : D.CalmUpdateIn P World.drawn)
    (hrec : ∀ receipt L id now s, plain receipt →
      rt.append s.state.ledger (receipt.stamped id now) = .ok L → D.inv s → P s →
      D.CalmStep s { s with state := s.state.recorded L (receipt.stamped id now) } ∧
        P { s with state := s.state.recorded L (receipt.stamped id now) }) {β : Type}
    {receipt : Receipt} {f : Receipt → M Λ β} (hp : plain receipt)
    (hf : ∀ r, D.Calm t O P (f r)) :
    D.Calm t O P (stamp rt receipt >>= fun r => record rt r >>= fun _ => f r) := by
  intro Os s₀ s hO h hP
  obtain ⟨hd, hPd⟩ := hdrawn s h.inv hP
  have hd := h.calm hd
  simp only [wp_bind, stamp, record, wp_getState, wp_modify, wp_onOk, wp_pure]
  cases ha : rt.append s.state.ledger
      (receipt.stamped (rt.uuid4 s.state.supply) (rt.now s.state.supply)) with
  | error e => simpa [World.drawn, ha, Except.mapError] using ⟨hO, hd, hPd⟩
  | ok L =>
    simp only [World.drawn, ha, Except.mapError, wp_lift, wp_onOk]
    obtain ⟨hr, hPr⟩ := hrec receipt L (rt.uuid4 s.state.supply) (rt.now s.state.supply)
      { s with state := s.state.drawn } hp ha hd.inv hPd
    exact hf _ Os s₀ _ hO (hd.calm hr) hPr

/-- What disturbs nobody, and keeps an assertion, is a law of operations. -/
theorem calm_law (hcall : ∀ e, Asks t quiet e → D.CalmEventIn P e) (hstable : D.Stable t O P)
    (hdrawn : D.CalmUpdateIn P World.drawn)
    (hverified : ∀ result, D.CalmUpdateIn P
      fun w => { w with verifications := w.verifications ++ [result] })
    (hrec : ∀ receipt L id now s, plain receipt →
      rt.append s.state.ledger (receipt.stamped id now) = .ok L → D.inv s → P s →
      D.CalmStep s { s with state := s.state.recorded L (receipt.stamped id now) } ∧
        P { s with state := s.state.recorded L (receipt.stamped id now) }) :
    KernelLaw rt (fun _ _ => True) quiet plain fun _ p => D.Calm t O P p where
  ret r := Calm.lift (t := t) r
  bindE hp hf := hp.bindE hf
  getState := Calm.getState (t := t)
  leads hp ht := Calm.leads hp hcall hstable ht
  idle := Calm.modify fun s h hP => ⟨⟨h, fun O => D.rely_refl O s⟩, hP⟩
  drawn := Calm.modify hdrawn
  verified result := Calm.modify (hverified result)
  recorded hp hf := calm_record hdrawn hrec hp hf

end Calm

/-- What `act` does with the receipt it exits with. -/
theorem wp_actuationExit {rt : Runtime Λ} {D : Discipline (kernelSig Λ) Outcome} {t : ℕ}
    {O Os : Set LockId} {s₀ s : KernelStore Λ}
    {Φ : Except Exc ActuationResult → Set LockId → Set LockId → KernelStore Λ → KernelStore Λ → Prop}
    {intent : ActuationIntent} {intentDigest : String} {receipt : Receipt}
    {result : Receipt → ActuationResult} {cache : Bool} (hres : ∀ r, (result r).receipt = r)
    (herr : ∀ e, Φ (.error (.ledger e)) O Os s₀ { s with state := s.state.drawn })
    (hok : ∀ L r, r.standing = receipt.standing →
      Φ (.ok (result r)) O Os s₀ { s with
        state := if cache then
            (s.state.drawn.recorded L r).cacheActuation (actKey intent) ⟨intentDigest, result r⟩
          else s.state.drawn.recorded L r }) :
    D.wp t Φ (actuationExit rt intent intentDigest receipt result cache) O Os s₀ s := by
  rw [actuationExit_eq hres]
  simp only [wp_bind, stamp, record, wp_getState, wp_modify, wp_onOk, wp_pure]
  cases ha : rt.append s.state.ledger
      (receipt.stamped (rt.uuid4 s.state.supply) (rt.now s.state.supply)) with
  | error e => simpa [World.drawn, ha, Except.mapError] using herr e
  | ok L =>
    have h := hok L (receipt.stamped (rt.uuid4 s.state.supply) (rt.now s.state.supply)) rfl
    simpa [World.drawn, ha, Except.mapError] using h

theorem wp_teardownRest {rt : Runtime Λ} {D : Discipline (kernelSig Λ) Outcome} {t : ℕ}
    {O Os : Set LockId} {s₀ s : KernelStore Λ}
    {Φ : Except Exc Receipt → Set LockId → Set LockId → KernelStore Λ → KernelStore Λ → Prop}
    {episodeId : String} {receipt : Receipt}
    (herr : ∀ e, Φ (.error (.ledger e)) O Os s₀ { s with state := s.state.drawn })
    (hgone : ∀ L id now, s.state.episodes episodeId = none →
      Φ (.error (.keyError episodeId)) O Os s₀ { s with
        state := (s.state.drawn.recorded L (receipt.stamped id now)).buried episodeId
          (receipt.stamped id now) })
    (hok : ∀ L id now, s.state.episodes episodeId ≠ none →
      Φ (.ok (receipt.stamped id now)) O Os s₀ { s with
        state := ((s.state.drawn.recorded L (receipt.stamped id now)).buried episodeId
          (receipt.stamped id now)).dropped episodeId }) :
    D.wp t Φ (teardownRest rt episodeId receipt) O Os s₀ s := by
  simp only [teardownRest, recordNew, stamp, record, wp_bind, wp_getState, wp_modify, wp_onOk,
    wp_pure]
  cases ha : rt.append s.state.ledger
      (receipt.stamped (rt.uuid4 s.state.supply) (rt.now s.state.supply)) with
  | error e => simpa [World.drawn, ha, Except.mapError] using herr e
  | ok L =>
    have hg := hgone L (rt.uuid4 s.state.supply) (rt.now s.state.supply)
    have hk := hok L (rt.uuid4 s.state.supply) (rt.now s.state.supply)
    cases hst : s.state.episodes episodeId with
    | none => simpa [World.drawn, World.recorded, ha, hst, Except.mapError] using hg hst
    | some st =>
      simpa [World.drawn, World.recorded, ha, hst, Except.mapError] using hk (by simp [hst])

end GymAct
