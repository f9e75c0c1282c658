import GymAct.Epistemic
import Std.Data.String.ToInt

/-!
# Grounded facts

The facts of an episode are the seeds and, after them, what `run_episode` admits of the extracted
claims (`Books`). A new fact takes the next of the ids `fact:n`, counted from the number of seeds
and whatever their ids are, and a claim passes when it cites no observation that was not made, so
also when it cites none. `episode_grounded_iff` : the facts of an episode that returns are grounded
exactly where nothing extracted is of these kinds.
-/

namespace GymAct

namespace Epistemic

open Fallible (Returns)

/-! ## Facts of claims -/

/-- The observations that executed reads made. -/
def observationIds (steps : List KernelStep) : List String :=
  steps.filterMap fun step =>
    match step with
    | .discriminateExecute _ _ observationId _ => some observationId
    | _ => none

/-- The id of a new fact. -/
def factId (n : ℕ) : String := "fact:" ++ toString n

theorem factId_injective : Function.Injective factId := fun _ _ h =>
  Nat.repr_injective ((String.append_right_inj _).mp h)

def claimFact (n : ℕ) (claim : CandidateClaim) : Fact where
  id := factId n
  subject := claim.subject
  predicate := claim.predicate
  value := claim.value
  sourceObservationIds := claim.sourceObservationIds

/-- The facts of admitted claims, from a fact id on. -/
def claimFacts : ℕ → List CandidateClaim → List Fact
  | _, [] => []
  | n, claim :: claims => claimFact n claim :: claimFacts (n + 1) claims

theorem length_claimFacts (n : ℕ) (claims : List CandidateClaim) :
    (claimFacts n claims).length = claims.length := by
  induction claims generalizing n with
  | nil => rfl
  | cons claim claims ih => simp [claimFacts, ih]

theorem ids_claimFacts (n : ℕ) (claims : List CandidateClaim) :
    (claimFacts n claims).map (·.id) = (List.range' n claims.length).map factId := by
  induction claims generalizing n with
  | nil => rfl
  | cons claim claims ih => simp [claimFacts, claimFact, List.range'_succ, ih]

theorem sources_claimFacts (n : ℕ) (claims : List CandidateClaim) :
    (claimFacts n claims).map (·.sourceObservationIds) = claims.map (·.sourceObservationIds) := by
  induction claims generalizing n with
  | nil => rfl
  | cons claim claims ih => simp [claimFacts, claimFact, ih]

/-- The claims of which the facts are admitted. -/
def EpisodeState.grounded (st : EpisodeState) (claims : List CandidateClaim) :
    List CandidateClaim :=
  claims.filter (·.isGrounded (st.observations.map (·.1)))

/-- The variables after an extraction. -/
def EpisodeState.admitClaims (st : EpisodeState) (claims : List CandidateClaim) : EpisodeState :=
  let refused : List KernelStep :=
    (claims.filter (!·.isGrounded (st.observations.map (·.1)))).map fun claim =>
      .claimRefused claim.subject claim.predicate ungroundedClaim
  (st.grounded claims).foldl admitFact { st with steps := st.steps ++ refused }

theorem foldl_admitFact (claims : List CandidateClaim) (st : EpisodeState) :
    (claims.foldl admitFact st).facts = st.facts ++ claimFacts st.nextFactId claims ∧
      (claims.foldl admitFact st).nextFactId = st.nextFactId + claims.length ∧
      (claims.foldl admitFact st).observations = st.observations ∧
      observationIds (claims.foldl admitFact st).steps = observationIds st.steps := by
  induction claims generalizing st with
  | nil => simp [claimFacts]
  | cons claim claims ih =>
    obtain ⟨hfacts, hnext, hobs, hsteps⟩ := ih (admitFact st claim)
    refine ⟨?_, ?_, hobs, ?_⟩
    · rw [List.foldl_cons, hfacts]
      simp [admitFact, claimFacts, claimFact, factId]
    · rw [List.foldl_cons, hnext]
      simp only [admitFact, List.length_cons]
      omega
    · rw [List.foldl_cons, hsteps]
      simp [admitFact, observationIds]

variable {st st' st₁ st₂ : EpisodeState} {claims : List CandidateClaim}

theorem facts_admitClaims : (st.admitClaims claims).facts =
    st.facts ++ claimFacts st.nextFactId (st.grounded claims) :=
  (foldl_admitFact _ _).1

theorem nextFactId_admitClaims :
    (st.admitClaims claims).nextFactId = st.nextFactId + (st.grounded claims).length :=
  (foldl_admitFact _ _).2.1

theorem observations_admitClaims : (st.admitClaims claims).observations = st.observations :=
  (foldl_admitFact _ _).2.2.1

theorem observationIds_admitClaims :
    observationIds (st.admitClaims claims).steps = observationIds st.steps := by
  refine (foldl_admitFact _ _).2.2.2.trans ?_
  have hrefused (l : List CandidateClaim) : observationIds (l.map fun claim =>
      KernelStep.claimRefused claim.subject claim.predicate ungroundedClaim) = [] := by
    induction l with
    | nil => rfl
    | cons claim l ih => exact ih
  simp only [observationIds, List.filterMap_append] at hrefused ⊢
  rw [hrefused, List.append_nil]

/-! ## The books -/

/-- What is true of the facts throughout an episode : after the seeds, the new ones in the order of
their ids, each citing observations of executed reads. -/
structure Books (seedFacts : List Fact) (st : EpisodeState) (admitted : List Fact) : Prop where
  facts : st.facts = seedFacts ++ admitted
  next : st.nextFactId = seedFacts.length + admitted.length
  ids : admitted.map (·.id) = (List.range' seedFacts.length admitted.length).map factId
  cited : ∀ fact ∈ admitted, fact.sourceObservationIds ⊆ observationIds st.steps
  observed : st.observations.map (·.1) ⊆ observationIds st.steps

/-- A part of an episode that admits no fact. -/
structure NoFacts (st st' : EpisodeState) : Prop where
  facts : st'.facts = st.facts
  next : st'.nextFactId = st.nextFactId
  steps : observationIds st.steps ⊆ observationIds st'.steps
  observed : st.observations.map (·.1) ⊆ observationIds st.steps →
    st'.observations.map (·.1) ⊆ observationIds st'.steps

theorem NoFacts.refl (st : EpisodeState) : NoFacts st st := ⟨rfl, rfl, fun _ => id, id⟩

theorem NoFacts.trans (h : NoFacts st st₁) (h' : NoFacts st₁ st₂) : NoFacts st st₂ where
  facts := h'.facts.trans h.facts
  next := h'.next.trans h.next
  steps := fun _ hobs => h'.steps (h.steps hobs)
  observed := fun hst => h'.observed (h.observed hst)

/-- Steps of other kinds at the end. -/
theorem noFacts_of_steps (hfacts : st'.facts = st.facts) (hnext : st'.nextFactId = st.nextFactId)
    (hobs : st'.observations = st.observations)
    (hsteps : observationIds st'.steps = observationIds st.steps) : NoFacts st st' where
  facts := hfacts
  next := hnext
  steps := fun _ h => hsteps ▸ h
  observed := fun h => by rwa [hobs, hsteps]

variable {seedFacts admitted : List Fact}

theorem Books.noFacts (h : Books seedFacts st admitted) (hno : NoFacts st st') :
    Books seedFacts st' admitted where
  facts := hno.facts.trans h.facts
  next := hno.next.trans h.next
  ids := h.ids
  cited := fun fact hfact _ hobs => hno.steps (h.cited fact hfact hobs)
  observed := hno.observed h.observed

theorem Books.admitClaims (h : Books seedFacts st admitted) (claims : List CandidateClaim) :
    Books seedFacts (st.admitClaims claims)
      (admitted ++ claimFacts st.nextFactId (st.grounded claims)) where
  facts := by rw [facts_admitClaims, h.facts, List.append_assoc]
  next := by
    rw [nextFactId_admitClaims, h.next, List.length_append, length_claimFacts]
    omega
  ids := by
    rw [List.map_append, h.ids, ids_claimFacts, List.length_append, length_claimFacts, h.next,
      ← List.map_append, List.range'_append_1]
  cited := fun fact hfact obs hobs => by
    rw [observationIds_admitClaims]
    rcases List.mem_append.mp hfact with hfact | hfact
    · exact h.cited fact hfact hobs
    · have hsources := List.mem_map_of_mem (f := (·.sourceObservationIds)) hfact
      rw [sources_claimFacts] at hsources
      obtain ⟨claim, hclaim, heq⟩ := List.mem_map.mp hsources
      have hreal := List.all_eq_true.mp (List.mem_filter.mp hclaim).2 obs (heq ▸ hobs)
      exact h.observed (of_decide_eq_true hreal)
  observed := by
    rw [observations_admitClaims, observationIds_admitClaims]
    exact h.observed

/-! ## Rounds -/

section Rounds

variable {σ : Type} {ops : Operators σ} {inquiry : Inquiry} {capabilities : List Capability}
  {idx left used : ℕ} {s s' : σ}

theorem noFacts_linkEvidence {mapping : EvidenceMapping}
    (h : Returns (linkEvidence ops idx st) s (st', mapping) s') : NoFacts st st' := by
  obtain ⟨answer, s₁, -, h⟩ := Fallible.returns_bind_iff.mp h
  dsimp only at h
  split_ifs at h
  · obtain ⟨heq, -⟩ := Fallible.returns_pure_iff.mp h
    obtain ⟨rfl, -⟩ := Prod.mk.inj heq
    exact noFacts_of_steps rfl rfl rfl (by simp [observationIds])
  · obtain ⟨heq, -⟩ := Fallible.returns_pure_iff.mp h
    obtain ⟨rfl, -⟩ := Prod.mk.inj heq
    exact noFacts_of_steps rfl rfl rfl (by simp [observationIds])

theorem noFacts_rehypothesize (h : Returns (rehypothesize ops inquiry idx st) s st' s') :
    NoFacts st st' := by
  obtain ⟨proposals, s₁, -, h⟩ := Fallible.returns_bind_iff.mp h
  obtain ⟨rfl, -⟩ := Fallible.returns_pure_iff.mp h
  exact noFacts_of_steps rfl rfl rfl (by simp [observationIds])

/-- A candidate that is executed makes one observation, and its step names it. -/
theorem noFacts_tryCandidate {candidate : ReadCandidate}
    (h : Returns (tryCandidate ops inquiry capabilities st candidate) s st' s') :
    NoFacts st st' := by
  have hrefuse : NoFacts st (tryCandidate.refuse candidate st) :=
    noFacts_of_steps rfl rfl rfl (by simp [tryCandidate.refuse, observationIds])
  unfold tryCandidate at h
  split at h
  · split_ifs at h
    · obtain ⟨outcome, s₁, -, h⟩ := Fallible.returns_bind_iff.mp h
      obtain ⟨rfl, -⟩ := Fallible.returns_pure_iff.mp h
      refine ⟨rfl, rfl, fun obs hobs => ?_, fun hst obs hobs => ?_⟩
      · simp only [observationIds, List.filterMap_append] at hobs ⊢
        exact List.mem_append_left _ hobs
      · simp only [observationIds, List.filterMap_append, List.map_append, List.mem_append] at hst hobs ⊢
        exact hobs.imp (fun hobs => hst hobs) id
    · obtain ⟨rfl, -⟩ := Fallible.returns_pure_iff.mp h
      exact hrefuse
  · obtain ⟨rfl, -⟩ := Fallible.returns_pure_iff.mp h
    exact hrefuse

theorem noFacts_candidates {candidates : List ReadCandidate}
    (h : Returns (candidates.foldlM (tryCandidate ops inquiry capabilities) st) s st' s') :
    NoFacts st st' :=
  Fallible.Returns.foldlM (I := fun st' => NoFacts st st')
    (fun _ _ _ _ _ hb hstep => hb.trans (noFacts_tryCandidate hstep)) (NoFacts.refl st) h

variable (ops inquiry capabilities)

/-- A round extracts the claims from the observations of the state `st₂`. -/
def ExtractsIn (idx : ℕ) (st : EpisodeState) (s : σ) (st₂ : EpisodeState)
    (claims : List CandidateClaim) (s' : σ) : Prop :=
  ∃ st₁ mapping s₁ candidates s₂ s₃,
    Returns (linkEvidence ops (idx + 1) st) s (st₁, mapping) s₁ ∧
    nextKernelAction (supported st₁.hypotheses).length (unknownHyps st₁.hypotheses).length =
      .discriminate ∧
    Returns (ops.discriminator inquiry.goal st₁.facts
      (supported st₁.hypotheses ++ unknownHyps st₁.hypotheses) mapping.obligations
      (inquiry.readCapabilities capabilities)) s₁ candidates s₂ ∧
    candidates ≠ [] ∧
    Returns (candidates.foldlM (tryCandidate ops inquiry capabilities) st₁) s₂ st₂ s₃ ∧
    st₂.observations ≠ [] ∧
    Returns (ops.candidateClaimExtractor st₂.observations st₂.facts) s₃ claims s'

/-- One of the rounds does. -/
inductive Extracts : ℕ → ℕ → EpisodeState → σ → EpisodeState → List CandidateClaim → Prop
  | here {left idx : ℕ} {st st₂ : EpisodeState} {s s' : σ} {claims : List CandidateClaim}
      (hround : ExtractsIn ops inquiry capabilities idx st s st₂ claims s') :
      Extracts (left + 1) idx st s st₂ claims
  | later {left idx : ℕ} {st st₁ st₂ : EpisodeState} {s s₁ : σ} {claims : List CandidateClaim}
      (hround : Returns (round ops inquiry capabilities idx st) s (st₁, false) s₁)
      (hlater : Extracts left (idx + 1) st₁ s₁ st₂ claims) :
      Extracts (left + 1) idx st s st₂ claims

variable {ops inquiry capabilities}

theorem ExtractsIn.noFacts (h : ExtractsIn ops inquiry capabilities idx st s st₂ claims s') :
    NoFacts st st₂ := by
  obtain ⟨st₁, mapping, s₁, candidates, s₂, s₃, hlink, -, -, -, hread, -⟩ := h
  exact (noFacts_linkEvidence hlink).trans (noFacts_candidates hread)

/-- The round goes on with the facts of the claims. -/
theorem ExtractsIn.returns (h : ExtractsIn ops inquiry capabilities idx st s st₂ claims s') :
    Returns (round ops inquiry capabilities idx st) s (st₂.admitClaims claims, false) s' := by
  obtain ⟨st₁, mapping, s₁, candidates, s₂, s₃, hlink, haction, hcandidates, hsome, hread, hobs,
    hclaims⟩ := h
  refine Fallible.returns_bind_iff.mpr ⟨(st₁, mapping), s₁, hlink, ?_⟩
  dsimp only
  rw [haction]
  refine Fallible.returns_bind_iff.mpr ⟨candidates, s₂, hcandidates, ?_⟩
  rw [if_neg hsome]
  refine Fallible.returns_bind_iff.mpr ⟨st₂.admitClaims claims, s', ?_,
    Fallible.returns_pure_iff.mpr ⟨rfl, rfl⟩⟩
  refine Fallible.returns_bind_iff.mpr ⟨st₂, s₃, hread, ?_⟩
  rw [extractClaims, if_neg hobs]
  exact Fallible.returns_bind_iff.mpr ⟨claims, s', hclaims, Fallible.returns_pure_iff.mpr ⟨rfl, rfl⟩⟩

/-- A round admits no fact, or those of the claims it extracts. -/
theorem round_extracts {stop : Bool}
    (h : Returns (round ops inquiry capabilities idx st) s (st', stop) s') : NoFacts st st' ∨
      ∃ st₂ claims, ExtractsIn ops inquiry capabilities idx st s st₂ claims s' ∧
        st' = st₂.admitClaims claims := by
  obtain ⟨⟨st₁, mapping⟩, s₁, hlink, h⟩ := Fallible.returns_bind_iff.mp h
  have hno := noFacts_linkEvidence hlink
  dsimp only at h
  split at h
  · obtain ⟨heq, -⟩ := Fallible.returns_pure_iff.mp h
    obtain ⟨rfl, rfl⟩ := Prod.mk.inj heq
    exact Or.inl hno
  · obtain ⟨st₂, s₂, hfresh, h⟩ := Fallible.returns_bind_iff.mp h
    obtain ⟨heq, -⟩ := Fallible.returns_pure_iff.mp h
    obtain ⟨rfl, rfl⟩ := Prod.mk.inj heq
    exact Or.inl (hno.trans (noFacts_rehypothesize hfresh))
  · next haction =>
    obtain ⟨candidates, s₂, hcandidates, h⟩ := Fallible.returns_bind_iff.mp h
    split_ifs at h with hnone
    · obtain ⟨heq, -⟩ := Fallible.returns_pure_iff.mp h
      obtain ⟨rfl, rfl⟩ := Prod.mk.inj heq
      exact Or.inl hno
    obtain ⟨st₃, s₃, hexperiment, h⟩ := Fallible.returns_bind_iff.mp h
    obtain ⟨heq, rfl⟩ := Fallible.returns_pure_iff.mp h
    obtain ⟨rfl, rfl⟩ := Prod.mk.inj heq
    obtain ⟨st₂, s₄, hread, h⟩ := Fallible.returns_bind_iff.mp hexperiment
    unfold extractClaims at h
    split_ifs at h with hobs
    · obtain ⟨rfl, -⟩ := Fallible.returns_pure_iff.mp h
      exact Or.inl (hno.trans (noFacts_candidates hread))
    · obtain ⟨claims, s₅, hclaims, h⟩ := Fallible.returns_bind_iff.mp h
      obtain ⟨rfl, rfl⟩ := Fallible.returns_pure_iff.mp h
      exact Or.inr ⟨st₂, claims, ⟨st₁, mapping, s₁, candidates, s₂, s₄, hlink, haction, hcandidates,
        hnone, hread, hobs, hclaims⟩, rfl⟩

/-- The facts that a round adds are facts of the claims that it extracts. -/
theorem round_books {stop : Bool} (hbooks : Books seedFacts st admitted)
    (h : Returns (round ops inquiry capabilities idx st) s (st', stop) s') :
    ∃ added, Books seedFacts st' (admitted ++ added) ∧ ∀ fact ∈ added, ∃ st₂ claims,
      ExtractsIn ops inquiry capabilities idx st s st₂ claims s' ∧
        fact ∈ claimFacts st₂.nextFactId (st₂.grounded claims) := by
  rcases round_extracts h with hno | ⟨st₂, claims, hextract, rfl⟩
  · refine ⟨[], ?_, fun fact hfact => absurd hfact List.not_mem_nil⟩
    rw [List.append_nil]
    exact hbooks.noFacts hno
  · exact ⟨_, (hbooks.noFacts hextract.noFacts).admitClaims claims,
      fun fact hfact => ⟨st₂, claims, hextract, hfact⟩⟩

/-- The facts that rounds add are facts of claims that they extract. -/
theorem rounds_books (hbooks : Books seedFacts st admitted)
    (h : Returns (rounds ops inquiry capabilities left idx st) s (st', used) s') :
    ∃ added, Books seedFacts st' (admitted ++ added) ∧ ∀ fact ∈ added, ∃ st₂ claims,
      Extracts ops inquiry capabilities left idx st s st₂ claims ∧
        fact ∈ claimFacts st₂.nextFactId (st₂.grounded claims) := by
  induction left generalizing idx st s admitted with
  | zero =>
    obtain ⟨heq, -⟩ := Fallible.returns_pure_iff.mp h
    obtain ⟨rfl, -⟩ := Prod.mk.inj heq
    exact ⟨[], by rwa [List.append_nil], fun fact hfact => absurd hfact List.not_mem_nil⟩
  | succ left ih =>
    rcases returns_rounds_succ.mp h with ⟨hround, -⟩ | ⟨st₁, s₁, hround, hrest⟩
    · obtain ⟨added, hbooks', hadded⟩ := round_books hbooks hround
      refine ⟨added, hbooks', fun fact hfact => ?_⟩
      obtain ⟨st₂, claims, hextract, hmem⟩ := hadded fact hfact
      exact ⟨st₂, claims, .here hextract, hmem⟩
    · obtain ⟨added, hbooks₁, hadded⟩ := round_books hbooks hround
      obtain ⟨later, hbooks', hlater⟩ := ih hbooks₁ hrest
      refine ⟨added ++ later, by rwa [← List.append_assoc], fun fact hfact => ?_⟩
      rcases List.mem_append.mp hfact with hfact | hfact
      · obtain ⟨st₂, claims, hextract, hmem⟩ := hadded fact hfact
        exact ⟨st₂, claims, .here hextract, hmem⟩
      · obtain ⟨st₂, claims, hextract, hmem⟩ := hlater fact hfact
        exact ⟨st₂, claims, .later hround hextract, hmem⟩

/-- What is admitted of an extraction stays. -/
theorem Extracts.stays (h : Extracts ops inquiry capabilities left idx st s st₂ claims)
    (hbooks : Books seedFacts st admitted)
    (hrun : Returns (rounds ops inquiry capabilities left idx st) s (st', used) s') :
    ∃ before after, Books seedFacts st₂ before ∧ Books seedFacts st'
      (before ++ claimFacts st₂.nextFactId (st₂.grounded claims) ++ after) := by
  induction h generalizing admitted with
  | @here left idx st st₂ s s₁ claims hround =>
    have hbefore : Books seedFacts st₂ admitted := hbooks.noFacts hround.noFacts
    rcases returns_rounds_succ.mp hrun with ⟨hstop, -⟩ | ⟨st₁, s₂, hgo, hrest⟩
    · obtain ⟨heq, -⟩ := Fallible.Returns.unique hstop hround.returns
      cases heq
    · obtain ⟨heq, rfl⟩ := Fallible.Returns.unique hgo hround.returns
      obtain ⟨rfl, -⟩ := Prod.mk.inj heq
      obtain ⟨after, hafter, -⟩ := rounds_books (hbefore.admitClaims claims) hrest
      exact ⟨admitted, after, hbefore, hafter⟩
  | @later left idx st st₁ st₂ s s₁ claims hround hlater ih =>
    rcases returns_rounds_succ.mp hrun with ⟨hstop, -⟩ | ⟨st₃, s₃, hgo, hrest⟩
    · obtain ⟨heq, -⟩ := Fallible.Returns.unique hstop hround
      cases heq
    · obtain ⟨heq, rfl⟩ := Fallible.Returns.unique hgo hround
      obtain ⟨rfl, -⟩ := Prod.mk.inj heq
      obtain ⟨added, hbooks₁, -⟩ := round_books hbooks hround
      exact ih hbooks₁ hrest

/-- What follows the rounds keeps the facts and the observations. -/
theorem conclude_keeps {result : EpistemicKernelResult}
    (h : Returns (conclude ops inquiry capabilities st used) s result s') :
    result.facts = st.facts ∧ observationIds st.steps ⊆ observationIds result.steps := by
  unfold conclude at h
  split at h
  · obtain ⟨diagnosis, s₁, -, h⟩ := Fallible.returns_bind_iff.mp h
    split_ifs at h with hnames
    · obtain ⟨rfl, -⟩ := Fallible.returns_pure_iff.mp h
      exact ⟨rfl, fun _ => id⟩
    obtain ⟨plans, s₂, -, h⟩ := Fallible.returns_bind_iff.mp h
    split at h
    · obtain ⟨rfl, -⟩ := Fallible.returns_pure_iff.mp h
      refine ⟨rfl, fun obs hobs => ?_⟩
      simp only [refusedResult, observationIds, List.filterMap_append] at hobs ⊢
      exact List.mem_append_left _ hobs
    · next plan hplan =>
      obtain ⟨acts, s₃, hacts, h⟩ := Fallible.returns_bind_iff.mp h
      obtain ⟨rfl, -⟩ := Fallible.returns_pure_iff.mp h
      refine ⟨rfl, ?_⟩
      refine Fallible.Returns.foldlM
        (I := fun acts => observationIds st.steps ⊆ observationIds acts.1) ?_ ?_ hacts
      · intro acts planStep t acts' t' hacts hstep
        unfold actPlanStep at hstep
        split at hstep
        · obtain ⟨rfl, -⟩ := Fallible.returns_pure_iff.mp hstep
          exact hacts
        · obtain ⟨outcome, t₁, -, hstep⟩ := Fallible.returns_bind_iff.mp hstep
          obtain ⟨rfl, -⟩ := Fallible.returns_pure_iff.mp hstep
          intro obs hobs
          have hmem := hacts hobs
          simp only [observationIds, List.filterMap_append] at hmem ⊢
          exact List.mem_append_left _ hmem
      · intro obs hobs
        simp only [observationIds, List.filterMap_append, List.append_assoc] at hobs ⊢
        exact List.mem_append_left _ hobs
  · obtain ⟨rfl, -⟩ := Fallible.returns_pure_iff.mp h
    exact ⟨rfl, fun _ => id⟩
  · obtain ⟨rfl, -⟩ := Fallible.returns_pure_iff.mp h
    exact ⟨rfl, fun _ => id⟩

end Rounds

/-! ## Grounded facts -/

/-- The facts of an episode have distinct ids, and each one after the seeds cites observations of
executed reads, and some. -/
def Grounded (seedFacts : List Fact) (result : EpistemicKernelResult) : Prop :=
  (result.facts.map (·.id)).Nodup ∧ ∃ admitted, result.facts = seedFacts ++ admitted ∧
    ∀ fact ∈ admitted, fact.sourceObservationIds ≠ [] ∧
      fact.sourceObservationIds ⊆ observationIds result.steps

/-- Every claim that is extracted cites an observation, and no seed has an id that the counter
gives to what is admitted of them. -/
def Clean (seedFacts : List Fact) (st : EpisodeState) (claims : List CandidateClaim) : Prop :=
  (∀ claim ∈ claims, claim.sourceObservationIds ≠ []) ∧
    ∀ i < (st.grounded claims).length, factId (st.nextFactId + i) ∉ seedFacts.map (·.id)

/-- An episode extracts the claims from the observations of the state `st`. -/
def EpisodeExtracts {σ : Type} (ops : Operators σ) (inquiry : Inquiry) (s : σ) (st : EpisodeState)
    (claims : List CandidateClaim) : Prop :=
  ∃ capabilities s₁ proposals s₂, Returns ops.capabilities s capabilities s₁ ∧
    Returns (ops.hypothesizer inquiry.goal inquiry.seedFacts inquiry.constraints) s₁ proposals s₂ ∧
    Extracts ops inquiry capabilities inquiry.maxDiscriminateRounds.toNat 0
      (inquiry.start proposals) s₂ st claims

/-- A fact of the claims has the id of its place, and the sources of its claim. -/
theorem mem_claimFacts {n : ℕ} {fact : Fact} (h : fact ∈ claimFacts n claims) :
    (∃ i < claims.length, fact.id = factId (n + i)) ∧
      ∃ claim ∈ claims, fact.sourceObservationIds = claim.sourceObservationIds := by
  have hid := List.mem_map_of_mem (f := (·.id)) h
  have hsources := List.mem_map_of_mem (f := (·.sourceObservationIds)) h
  rw [ids_claimFacts] at hid
  rw [sources_claimFacts] at hsources
  obtain ⟨m, hm, hid⟩ := List.mem_map.mp hid
  obtain ⟨claim, hclaim, hsources⟩ := List.mem_map.mp hsources
  obtain ⟨i, hi, rfl⟩ := List.mem_range'.mp hm
  exact ⟨⟨i, hi, by rw [← hid, one_mul]⟩, claim, hclaim, hsources.symm⟩

/-- The ids of the facts are distinct when no new one is a seed's. -/
theorem Books.nodup (h : Books seedFacts st admitted) (hseeds : (seedFacts.map (·.id)).Nodup)
    (hnew : ∀ fact ∈ admitted, fact.id ∉ seedFacts.map (·.id)) : (st.facts.map (·.id)).Nodup := by
  rw [h.facts, List.map_append]
  refine List.nodup_append.mpr ⟨hseeds, ?_, fun id hid id' hid' heq => ?_⟩
  · rw [h.ids]
    exact (List.nodup_range' 1).map factId_injective
  · obtain ⟨fact, hfact, rfl⟩ := List.mem_map.mp hid'
    exact hnew fact hfact (heq ▸ hid)

theorem books_start (inquiry : Inquiry) (proposals : List HypothesisProposal) :
    Books inquiry.seedFacts (inquiry.start proposals) [] where
  facts := (List.append_nil _).symm
  next := rfl
  ids := rfl
  cited := fun _ hfact => absurd hfact List.not_mem_nil
  observed := fun _ hobs => absurd hobs List.not_mem_nil

/-- The facts of an episode that returns are grounded exactly where every extraction of its rounds
is clean. -/
theorem episode_grounded_iff {σ : Type} (ops : Operators σ) (inquiry : Inquiry)
    (hseeds : (inquiry.seedFacts.map (·.id)).Nodup) {s s' : σ} {result : EpistemicKernelResult}
    (hrun : Returns (runEpisode ops inquiry) s result s') :
    Grounded inquiry.seedFacts result ↔
      ∀ st claims, EpisodeExtracts ops inquiry s st claims → Clean inquiry.seedFacts st claims := by
  obtain ⟨capabilities, s₁, hcapabilities, hrun⟩ := Fallible.returns_bind_iff.mp hrun
  obtain ⟨proposals, s₂, hproposals, hrun⟩ := Fallible.returns_bind_iff.mp hrun
  obtain ⟨⟨st', used⟩, s₃, hrounds, hconclude⟩ := Fallible.returns_bind_iff.mp hrun
  have hstart := books_start inquiry proposals
  obtain ⟨hfacts, hsteps⟩ := conclude_keeps hconclude
  constructor
  · rintro ⟨hnodup, admitted, hadmitted, hcites⟩ st claims
      ⟨capabilities', t₁, proposals', t₂, hcapabilities', hproposals', hextract⟩
    obtain ⟨rfl, rfl⟩ := Fallible.Returns.unique hcapabilities hcapabilities'
    obtain ⟨rfl, rfl⟩ := Fallible.Returns.unique hproposals hproposals'
    obtain ⟨before, after, hbefore, hafter⟩ := hextract.stays hstart hrounds
    obtain rfl : admitted = before ++ claimFacts st.nextFactId (st.grounded claims) ++ after :=
      List.append_cancel_left (hadmitted.symm.trans (hfacts.trans hafter.facts))
    have hmem : ∀ fact ∈ claimFacts st.nextFactId (st.grounded claims),
        fact ∈ before ++ claimFacts st.nextFactId (st.grounded claims) ++ after :=
      fun fact hfact => List.mem_append_left _ (List.mem_append_right _ hfact)
    constructor
    · intro claim hclaim hnone
      have hgrounded : claim ∈ st.grounded claims :=
        List.mem_filter.mpr ⟨hclaim, by simp [CandidateClaim.isGrounded, hnone]⟩
      have hsources := List.mem_map_of_mem (f := (·.sourceObservationIds)) hgrounded
      rw [← sources_claimFacts st.nextFactId] at hsources
      obtain ⟨fact, hfact, heq⟩ := List.mem_map.mp hsources
      exact (hcites fact (hmem fact hfact)).1 (heq.trans hnone)
    · intro i hi hseed
      have hid : factId (st.nextFactId + i) ∈
          (claimFacts st.nextFactId (st.grounded claims)).map (·.id) := by
        rw [ids_claimFacts]
        exact List.mem_map_of_mem (List.mem_range'.mpr ⟨i, hi, by rw [one_mul]⟩)
      obtain ⟨fact, hfact, heq⟩ := List.mem_map.mp hid
      rw [hadmitted, List.map_append] at hnodup
      exact (List.nodup_append.mp hnodup).2.2 _ hseed _
        (List.mem_map_of_mem (f := (·.id)) (hmem fact hfact)) heq.symm
  · intro hclean
    obtain ⟨added, hbooks, hadded⟩ := rounds_books hstart hrounds
    rw [List.nil_append] at hbooks
    have hfrom : ∀ fact ∈ added, fact.sourceObservationIds ≠ [] ∧
        fact.id ∉ inquiry.seedFacts.map (·.id) := by
      intro fact hfact
      obtain ⟨st, claims, hextract, hmem⟩ := hadded fact hfact
      obtain ⟨hcites, hids⟩ := hclean st claims
        ⟨capabilities, s₁, proposals, s₂, hcapabilities, hproposals, hextract⟩
      obtain ⟨⟨i, hi, hid⟩, claim, hclaim, hsources⟩ := mem_claimFacts hmem
      rw [hid, hsources]
      exact ⟨hcites claim (List.mem_filter.mp hclaim).1, hids i hi⟩
    refine ⟨hfacts ▸ hbooks.nodup hseeds fun fact hfact => (hfrom fact hfact).2, added,
      hfacts.trans hbooks.facts, fun fact hfact => ⟨(hfrom fact hfact).1, fun obs hobs => ?_⟩⟩
    exact hsteps (hbooks.cited fact hfact hobs)

/-- Operators that propose one hypothesis and one read, and draw the claims from it. -/
def readingOperators (claims : List CandidateClaim) : Operators Unit where
  capabilities := pure [⟨"urn:df", "df", .read, "df", []⟩]
  hypothesizer _ _ _ := pure [⟨"the disk is full", [], "df"⟩]
  evidenceLinker _ _ _ := pure {}
  discriminator _ _ _ _ _ := pure [{ capabilityId := "urn:df" }]
  candidateClaimExtractor _ _ := pure claims
  diagnoser _ _ _ := pure ⟨["hyp:0"], [], [], ""⟩
  planConstructor _ _ _ _ _ := pure []
  act _ _ := pure ⟨true, .alive, none, none⟩
  repr text := "'" ++ text ++ "'"
  str _ := "{}"

/-- One round, with one seed. -/
def readingInquiry (seedId : String) : Inquiry where
  goal := ⟨"goal", [], [], []⟩
  constraints := []
  seedFacts := [⟨seedId, "disk", "size", "1G", [], []⟩]
  readCapabilityBindings := {"df"}
  doCapabilityBindings := ∅
  maxDiscriminateRounds := 1

/-- A claim that cites these observations. -/
def usage (sourceObservationIds : List String) : CandidateClaim :=
  ⟨"disk", "usage", "100%", sourceObservationIds⟩

/-- One claim is extracted, which cites the observation. -/
theorem episode_grounded_reading : ∃ result,
    Returns (runEpisode (readingOperators [usage ["obs:0"]]) (readingInquiry "fact:seed")) ()
      result () ∧ Grounded (readingInquiry "fact:seed").seedFacts result ∧ ∀ st claims,
        EpisodeExtracts (readingOperators [usage ["obs:0"]]) (readingInquiry "fact:seed") () st
          claims → Clean (readingInquiry "fact:seed").seedFacts st claims := by
  obtain ⟨result, hrun, hfacts, hsteps⟩ : ∃ result,
      Returns (runEpisode (readingOperators [usage ["obs:0"]]) (readingInquiry "fact:seed")) ()
        result () ∧ result.facts = (readingInquiry "fact:seed").seedFacts ++
          [claimFact 1 (usage ["obs:0"])] ∧ observationIds result.steps = ["obs:0"] :=
    ⟨_, rfl, rfl, rfl⟩
  have hgrounded : Grounded (readingInquiry "fact:seed").seedFacts result := by
    refine ⟨by rw [hfacts]; decide +kernel, _, hfacts, fun fact hfact => ?_⟩
    obtain rfl := List.mem_singleton.mp hfact
    exact ⟨by decide, by rw [hsteps]; exact fun _ => id⟩
  exact ⟨result, hrun, hgrounded, (episode_grounded_iff _ _ (by decide) hrun).mp hgrounded⟩

/-- A seed that has the first id of the counter, and a claim that cites nothing. -/
theorem not_grounded_reading :
    (∀ result s', Returns (runEpisode (readingOperators [usage ["obs:0"]]) (readingInquiry "fact:1"))
      () result s' → ¬Grounded (readingInquiry "fact:1").seedFacts result) ∧
    (∀ result s', Returns (runEpisode (readingOperators [usage []]) (readingInquiry "fact:seed")) ()
      result s' → ¬Grounded (readingInquiry "fact:seed").seedFacts result) := by
  constructor
  · intro result s' h hgrounded
    obtain ⟨rfl, -⟩ := Fallible.Returns.unique h (by rfl)
    exact absurd hgrounded.1 (by decide +kernel)
  · rintro result s' h ⟨-, admitted, hfacts, hcites⟩
    obtain ⟨rfl, -⟩ := Fallible.Returns.unique h (by rfl)
    obtain rfl : [claimFact 1 (usage [])] = admitted := List.append_cancel_left hfacts
    exact (hcites _ (List.mem_singleton_self _)).1 rfl

end Epistemic

end GymAct
