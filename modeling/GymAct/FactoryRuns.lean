import GymAct.FactoryWorld

/-!
# Runs of the factory simulation

`engage_cases` says once what an engagement can do : a recipe is refused, or used again, or the
class is explored. What is kept over a run (`Good`) ties the recipes to the revisions under which
their classes were explored, so no exploration is redundant.

`simulate_compounds` : whatever the ranks, the two arms record the same classes, the factory never
takes more evaluations than the baseline, nothing is unverified, and what is exploited is the
truth. `simulate_ok` : both arms return while the integers that they digest have canonical forms.
-/

namespace GymAct

namespace FactorySim

open Compileout

variable {C : Canon} {rank : Ranks} {spec : SimulationSpec} {factory : Bool} {i : ℕ}
  {classId : String} {s s' : SimState C}

/-! ## Authority and identity -/

theorem authorize_eq_ok {candidate : String} {admitted : Bool}
    (h : authorize C spec classId candidate = .ok admitted) : admitted = spec.authorityGranted := by
  unfold authorize at h
  split at h
  · cases h
  · cases h
    unfold resolver
    split
    · next hgranted => simp [allowListAuthorize, authorityRequest, hgranted]
    · next hdenied => simp [denyAuthorize, authorityRequest, hdenied]

theorem authorize_ok (hC : C.Total) {candidate : String} :
    authorize C spec classId candidate = .ok spec.authorityGranted := by
  have hcanonical : (authorityRequest classId candidate).modelDump.isCanonical = true := by
    simp [authorityRequest, AuthorityRequest.modelDump]
  obtain ⟨bytes, hbytes⟩ := hC _ hcanonical
  cases h : authorize C spec classId candidate with
  | ok admitted => rw [authorize_eq_ok h]
  | error e =>
    unfold authorize at h
    rw [hbytes] at h
    cases h

/-- The digest of a list is not the empty string. -/
def NamesLists (C : Canon) : Prop := ∀ items d, C.digest (.list items) = .ok d → d ≠ ""

theorem append_ne_empty {a b : String} (h : a ≠ "") : a ++ b ≠ "" := fun hempty =>
  h (String.append_eq_empty_iff.mp hempty).1

theorem identity_ok (hC : C.Total) (hL : NamesLists C) (hclass : classId ≠ "") (revision : ℕ) :
    ∃ current, identity C rank spec classId revision = .ok current := by
  have hcanonical : Value.isCanonical (.list [.int COMMON_INSTANCES, .int RARE_INSTANCES]) = true := by
    decide
  obtain ⟨contract, hcontract⟩ := hC.digest hcanonical
  have hname := hL _ _ hcontract
  have hworld : "urn:gymact:sim:world:" ++
      String.ofList ((rank spec.seed [.str "env"]).text.toList.take 12) ≠ "" :=
    append_ne_empty (by decide)
  have hrevision : "rev-" ++ toString revision ≠ "" := append_ne_empty (by decide)
  have hauthority : (if spec.authorityGranted then "allowlist" else "deny") ≠ "" := by
    split <;> decide
  have hverifier : VERIFIER_REF ≠ "" := by decide
  have haction : ACTION_REF ≠ "" := by decide
  rw [identity, hcontract, Fallible.ok_bind, RecipeIdentity.construct, dif_pos]
  · exact ⟨_, rfl⟩
  · simp only [List.forall_mem_cons, List.not_mem_nil, false_implies, implies_true]
    exact ⟨hclass, hworld, hauthority, hrevision, hverifier, haction, hname, trivial⟩

/-! ## What an engagement does -/

/-- The record of an exploration. -/
def outcome (granted : Bool) (i : ℕ) (classId : String) (reason : ExploreReason)
    (preVerify evals : ℕ) : EngagementRecord :=
  if granted then exploreRecord i classId reason evals (preVerify + 1) true
  else refusedRecord i classId (some reason) evals preVerify

/-- The state with another exploration counted, where it is redundant. -/
def counting (factory : Bool) (classId : String) (revision : ℕ) (s : SimState C) : SimState C :=
  { s with redundant := s.redundant + if isRedundant C factory s classId revision then 1 else 0 }

theorem keeping_eq_ok {current : RecipeIdentity} {revision : ℕ} {candidate : String}
    {receipts : List String}
    (h : keeping C factory classId current revision candidate receipts s = .ok s') :
    (factory = false ∧ s' = s) ∨ (factory = true ∧ ∃ recipe,
      recipe.toRecipePayload = ⟨current, candidate, receipts⟩ ∧ recipe.standing = .structural ∧
        s' = compiled C s classId revision recipe) := by
  unfold keeping at h
  split at h
  · next hfactory =>
    cases hrecipe : compileRecipe C current candidate receipts with
    | error e =>
      rw [hrecipe] at h
      cases h
    | ok recipe =>
      rw [hrecipe] at h
      obtain ⟨hpayload, hstanding⟩ := compileRecipe_eq_ok hrecipe
      exact .inr ⟨hfactory, recipe, hpayload, hstanding, (Except.ok.inj h).symm⟩
  · next hbaseline => exact .inl ⟨by simpa using hbaseline, (Except.ok.inj h).symm⟩

/-- An exploration finds the truth, keeps it and applies it. -/
theorem exploring_eq_ok {current : RecipeIdentity} {reason : ExploreReason}
    {preVerify revision : ℕ}
    (h : exploring C rank spec factory i classId current reason preVerify revision s = .ok s') :
    ∃ receipts evals s₁,
      explore C rank spec classId (s.epoch classId) =
        .ok (truth rank spec classId (s.epoch classId), receipts, evals) ∧
      keeping C factory classId current revision (truth rank spec classId (s.epoch classId)) receipts
        (counting factory classId revision s) = .ok s₁ ∧
      s' = s₁.record (outcome spec.authorityGranted i classId reason preVerify evals)
        (truth rank spec classId (s.epoch classId)) := by
  obtain ⟨⟨candidate, receipts, evals⟩, hexplore, h⟩ := Fallible.bind_eq_ok.mp h
  obtain ⟨s₁, hkeeping, h⟩ := Fallible.bind_eq_ok.mp h
  obtain ⟨admitted, hauthorize, h⟩ := Fallible.bind_eq_ok.mp h
  obtain rfl : candidate = truth rank spec classId (s.epoch classId) := (explore_eq_ok hexplore).1
  have hepoch : s₁.epoch classId = s.epoch classId := by
    rcases keeping_eq_ok hkeeping with ⟨-, rfl⟩ | ⟨-, recipe, -, -, rfl⟩ <;> rfl
  have hadmitted := authorize_eq_ok hauthorize
  refine ⟨receipts, evals, s₁, hexplore, hkeeping, ?_⟩
  split at h
  · next hgranted =>
    obtain ⟨⟨ok, ref⟩, heval, h⟩ := Fallible.bind_eq_ok.mp h
    have hverdict := evaluate_eq_ok heval
    rw [hepoch, verdict_truth] at hverdict
    obtain rfl : ok = true := hverdict
    rw [outcome, ← hadmitted, if_pos hgranted]
    exact (Except.ok.inj h).symm
  · next hdenied =>
    rw [outcome, ← hadmitted, if_neg hdenied]
    exact (Except.ok.inj h).symm

/-- An exploration is of a class whose recipe is not of its identity, or under a new revision. -/
inductive Restarts (rank : Ranks) (spec : SimulationSpec) (factory : Bool) (classId : String)
    (s : SimState C) : SimState C → ℕ → RecipeIdentity → Prop
  | stale {revision current} : s.revision.lookup classId = some revision →
      identity C rank spec classId revision = .ok current →
      (∀ recipe, found C s classId = some recipe → recipe.standing = .structural →
        factory = true → recipe.identity ≠ current) →
      Restarts rank spec factory classId s s revision current
  | diverged {revision current} : s.revision.lookup classId = some revision →
      identity C rank spec classId (revision + 1) = .ok current →
      Restarts rank spec factory classId s
        { s with revision := s.revision.insert classId (revision + 1) } (revision + 1) current

/-- A recipe is refused or used again, or the class is explored. -/
inductive Engages (rank : Ranks) (spec : SimulationSpec) (factory : Bool) (i : ℕ)
    (s : SimState C) : SimState C → Prop
  | refused (candidate : String) : factory = true → spec.authorityGranted = false →
      Engages rank spec factory i s (s.record (refusedRecord i (classOf rank spec i) none 0 0) candidate)
  | exploited : factory = true → spec.authorityGranted = true →
      Engages rank spec factory i s (s.record (exploitRecord i (classOf rank spec i))
        (truth rank spec (classOf rank spec i) (s.epoch (classOf rank spec i))))
  | explored {s₀ s₁ : SimState C} {revision current reason preVerify receipts evals} :
      Restarts rank spec factory (classOf rank spec i) s s₀ revision current →
      preVerify ≤ 1 →
      explore C rank spec (classOf rank spec i) (s.epoch (classOf rank spec i)) = .ok
        (truth rank spec (classOf rank spec i) (s.epoch (classOf rank spec i)), receipts, evals) →
      keeping C factory (classOf rank spec i) current revision
        (truth rank spec (classOf rank spec i) (s.epoch (classOf rank spec i))) receipts
        (counting factory (classOf rank spec i) revision s₀) = .ok s₁ →
      Engages rank spec factory i s (s₁.record (outcome spec.authorityGranted i
        (classOf rank spec i) reason preVerify evals)
        (truth rank spec (classOf rank spec i) (s.epoch (classOf rank spec i))))

theorem revisionOf_eq_ok {r : ℕ} : s.revisionOf classId = .ok r ↔ s.revision.lookup classId = some r := by
  unfold SimState.revisionOf
  cases h : s.revision.lookup classId <;> simp

theorem exploiting_cases {recipe : CompiledRecipe C} (hfactory : factory = true)
    (h : exploiting C rank spec factory i (classOf rank spec i) recipe s = .ok s') :
    Engages rank spec factory i s s' := by
  obtain ⟨admitted, hauthorize, h⟩ := Fallible.bind_eq_ok.mp h
  have hadmitted := authorize_eq_ok hauthorize
  split at h
  · next hgranted =>
    obtain ⟨⟨ok, ref⟩, heval, h⟩ := Fallible.bind_eq_ok.mp h
    have hverdict := evaluate_eq_ok heval
    dsimp only at h hverdict
    split at h
    · next hok =>
      have htruth := verdict_rare.mp (hverdict ▸ hok)
      obtain rfl := Except.ok.inj h
      rw [htruth]
      exact .exploited hfactory (hadmitted ▸ hgranted)
    · obtain ⟨r, hr, h⟩ := Fallible.bind_eq_ok.mp h
      obtain ⟨current, hcurrent, h⟩ := Fallible.bind_eq_ok.mp h
      obtain ⟨receipts, evals, s₁, hexplore, hkeeping, rfl⟩ := exploring_eq_ok h
      exact .explored (.diverged (revisionOf_eq_ok.mp hr) hcurrent) le_rfl hexplore hkeeping
  · next hdenied =>
    obtain rfl := Except.ok.inj h
    exact .refused _ hfactory (by rw [← hadmitted]; simpa using hdenied)

/-- What an engagement can do. -/
theorem engage_cases (h : engage C rank spec factory i s = .ok s') :
    Engages rank spec factory i s s' := by
  obtain ⟨r, hr, h⟩ := Fallible.bind_eq_ok.mp h
  obtain ⟨current, hcurrent, h⟩ := Fallible.bind_eq_ok.mp h
  replace hr := revisionOf_eq_ok.mp hr
  cases hselect : select C factory s (classOf rank spec i) current with
  | inl recipe =>
    rw [hselect] at h
    have hfactory : factory = true := by
      by_contra hbaseline
      rw [select, if_neg hbaseline] at hselect
      cases hselect
    exact exploiting_cases hfactory h
  | inr reason =>
    rw [hselect] at h
    obtain ⟨receipts, evals, s₁, hexplore, hkeeping, rfl⟩ := exploring_eq_ok h
    refine .explored (.stale hr hcurrent fun recipe hrecipe hstanding hfactory hsame => ?_)
      (Nat.zero_le 1) hexplore hkeeping
    rw [select, if_pos hfactory, hrecipe] at hselect
    dsimp only at hselect
    rw [if_pos ((admitted_iff hstanding).mpr hsame)] at hselect
    cases hselect

/-! ## Drifts -/

/-- The epoch of a class in an engagement : the drifts of the class by then. -/
def epochAt (spec : SimulationSpec) (i : ℕ) (classId : String) : ℕ :=
  spec.driftEvents.countP fun ev => ev.atEngagement ≤ i ∧ ev.classId = classId

/-- Drifts start epochs and revisions, and leave the rest. -/
structure Drifted (s s' : SimState C) : Prop where
  cache : s'.cache = s.cache
  index : s'.index = s.index
  exploredIdentity : s'.exploredIdentity = s.exploredIdentity
  engaged : s'.engaged = s.engaged
  counts : s'.redundant = s.redundant ∧ s'.unverified = s.unverified
  revision : ∀ classId r, s.revision.lookup classId = some r →
    ∃ r', s'.revision.lookup classId = some r' ∧ r ≤ r'

theorem Drifted.refl (s : SimState C) : Drifted s s :=
  ⟨rfl, rfl, rfl, rfl, ⟨rfl, rfl⟩, fun _ r h => ⟨r, h, le_rfl⟩⟩

theorem Drifted.trans {s'' : SimState C} (h : Drifted s s') (h' : Drifted s' s'') :
    Drifted s s'' where
  cache := h'.cache.trans h.cache
  index := h'.index.trans h.index
  exploredIdentity := h'.exploredIdentity.trans h.exploredIdentity
  engaged := h'.engaged.trans h.engaged
  counts := ⟨h'.counts.1.trans h.counts.1, h'.counts.2.trans h.counts.2⟩
  revision classId r hr := by
    obtain ⟨r', hr', hle⟩ := h.revision classId r hr
    obtain ⟨r'', hr'', hle'⟩ := h'.revision classId r' hr'
    exact ⟨r'', hr'', hle.trans hle'⟩

theorem raised_revision {r : ℕ} (hr : s.revision.lookup classId = some r) :
    ∀ other k, s.revision.lookup other = some k →
      ∃ k', (s.revision.insert classId (r + 1)).lookup other = some k' ∧ k ≤ k' := by
  intro other k hk
  rw [Table.lookup_insert]
  split_ifs with hother
  · subst hother
    obtain rfl := Option.some.inj (hk.symm.trans hr)
    exact ⟨k + 1, rfl, by omega⟩
  · exact ⟨k, hk, le_rfl⟩

theorem drift_eq_ok {ev : DriftEvent} (h : drift C s ev = .ok s') : Drifted s s' ∧
    ∀ classId, s'.epoch classId = s.epoch classId + if ev.classId = classId then 1 else 0 := by
  have hepoch : ∀ classId, ((s.epochs.insert ev.classId (s.epoch ev.classId + 1)).lookup
      classId).getD 0 = s.epoch classId + if ev.classId = classId then 1 else 0 := by
    intro classId
    rw [Table.lookup_insert]
    by_cases hclass : classId = ev.classId
    · subst hclass
      simp
    · rw [if_neg hclass, if_neg (Ne.symm hclass)]
      rfl
  unfold drift at h
  split at h
  · obtain ⟨r, hr, h⟩ := Fallible.bind_eq_ok.mp h
    obtain rfl := Except.ok.inj h
    exact ⟨⟨rfl, rfl, rfl, rfl, ⟨rfl, rfl⟩, raised_revision (revisionOf_eq_ok.mp hr)⟩, hepoch⟩
  · obtain rfl := Except.ok.inj h
    exact ⟨⟨rfl, rfl, rfl, rfl, ⟨rfl, rfl⟩, fun _ r hr => ⟨r, hr, le_rfl⟩⟩, hepoch⟩

theorem foldlM_drift : ∀ {l : List DriftEvent} {s s' : SimState C}, l.foldlM (drift C) s = .ok s' →
    Drifted s s' ∧ ∀ classId, s'.epoch classId =
      s.epoch classId + l.countP fun ev => ev.classId = classId
  | [], s, s', h => by
    obtain rfl := Except.ok.inj h
    exact ⟨.refl _, fun _ => by simp⟩
  | ev :: l, s, s', h => by
    obtain ⟨t, ht, h⟩ := Fallible.bind_eq_ok.mp h
    obtain ⟨hdrifted, hepoch⟩ := drift_eq_ok ht
    obtain ⟨hdrifted', hepoch'⟩ := foldlM_drift h
    refine ⟨hdrifted.trans hdrifted', fun classId => ?_⟩
    rw [hepoch', hepoch, List.countP_cons]
    simp only [decide_eq_true_eq]
    omega

/-- After the drifts of an engagement, its epochs. -/
theorem drifts_eq_ok (h : drifts C spec (i + 1) s = .ok s')
    (hepoch : ∀ classId, s.epoch classId = epochAt spec i classId) :
    Drifted s s' ∧ ∀ classId, s'.epoch classId = epochAt spec (i + 1) classId := by
  obtain ⟨hdrifted, hadded⟩ := foldlM_drift h
  refine ⟨hdrifted, fun classId => ?_⟩
  rw [hadded, hepoch, epochAt, epochAt, List.countP_filter]
  generalize spec.driftEvents = l
  induction l with
  | nil => rfl
  | cons ev l ih =>
    simp only [List.countP_cons, Bool.and_eq_true, decide_eq_true_eq] at ih ⊢
    rw [← ih]
    by_cases hclass : ev.classId = classId
    · simp only [hclass, and_true, true_and]
      split_ifs <;> omega
    · simp only [hclass, and_false, false_and, if_false]
      omega

/-! ## What is kept -/

/-- A class was compiled under a revision that is not above its revision now. -/
structure IsCompiled (rank : Ranks) (spec : SimulationSpec) (s : SimState C) (classId d : String) :
    Prop where
  recipe : ∃ recipe, s.cache.lookup d = some recipe ∧ recipe.standing = .structural ∧
    ∃ revision epoch now, s.exploredIdentity.lookup classId = some (revision, epoch) ∧
      identity C rank spec classId revision = .ok recipe.identity ∧
      s.revision.lookup classId = some now ∧ revision ≤ now

/-- What holds after some engagements. -/
structure Good (rank : Ranks) (spec : SimulationSpec) (i : ℕ) (s : SimState C) : Prop where
  epoch : ∀ classId, s.epoch classId = epochAt spec i classId
  revision : ∀ classId ∈ classes spec, ∃ r, s.revision.lookup classId = some r
  cached : ∀ d recipe, s.cache.lookup d = some recipe → recipe.recipeDigest = d
  compiled : ∀ classId d, s.index.lookup classId = some d → IsCompiled rank spec s classId d
  explored : ∀ classId, s.index.lookup classId = none → s.exploredIdentity.lookup classId = none
  counts : s.redundant = 0 ∧ s.unverified = 0

theorem IsCompiled.drifted {d : String} (h : IsCompiled rank spec s classId d)
    (hdrifted : Drifted s s') : IsCompiled rank spec s' classId d := by
  obtain ⟨recipe, hrecipe, hstanding, revision, epoch, now, hexplored, hidentity, hnow, hle⟩ := h.recipe
  obtain ⟨now', hnow', hle'⟩ := hdrifted.revision classId now hnow
  refine ⟨recipe, by rw [hdrifted.cache, hrecipe], hstanding, revision, epoch, now', ?_, hidentity,
    hnow', hle.trans hle'⟩
  rw [hdrifted.exploredIdentity, hexplored]

theorem Good.drifted {j : ℕ} (h : Good rank spec i s) (hdrifted : Drifted s s')
    (hepoch : ∀ classId, s'.epoch classId = epochAt spec j classId) : Good rank spec j s' where
  epoch := hepoch
  revision classId hclass := by
    obtain ⟨r, hr⟩ := h.revision classId hclass
    obtain ⟨r', hr', -⟩ := hdrifted.revision classId r hr
    exact ⟨r', hr'⟩
  cached := by
    rw [hdrifted.cache]
    exact h.cached
  compiled classId d hd := by
    rw [hdrifted.index] at hd
    exact (h.compiled classId d hd).drifted hdrifted
  explored classId hnone := by
    rw [hdrifted.index] at hnone
    rw [hdrifted.exploredIdentity]
    exact h.explored classId hnone
  counts := by
    rw [hdrifted.counts.1, hdrifted.counts.2]
    exact h.counts

/-- An exploration under a revision that is new to the class, or whose identity is, is not
redundant. -/
theorem not_redundant (h : Good rank spec i s) {s₀ : SimState C} {revision : ℕ}
    {current : RecipeIdentity} (hrestarts : Restarts rank spec factory classId s s₀ revision current) :
    isRedundant C factory s₀ classId revision = false := by
  unfold isRedundant
  rw [Bool.and_eq_false_iff]
  by_cases hfactory : factory = true
  swap
  · exact .inl (by simpa using hfactory)
  refine .inr (decide_eq_false fun hsame => ?_)
  cases hindex : s.index.lookup classId with
  | none =>
    have hnone := h.explored classId hindex
    cases hrestarts with
    | stale => rw [hnone] at hsame; cases hsame
    | diverged => rw [show s.exploredIdentity.lookup classId = none from hnone] at hsame; cases hsame
  | some d =>
    obtain ⟨recipe, hrecipe, hstanding, explored, epoch, now, hexplored, hidentity, hnow, hle⟩ :=
      (h.compiled classId d hindex).recipe
    cases hrestarts with
    | stale hr hcurrent hother =>
      -- the recipe's identity is that of the revision it was explored under
      rw [hexplored] at hsame
      obtain ⟨rfl, -⟩ := Prod.mk.inj (Option.some.inj hsame)
      have hdigest : d ≠ "" := h.cached d recipe hrecipe ▸ recipe.filled.2
      have hfound : found C s classId = some recipe := by
        rw [found, hindex]
        exact (if_neg hdigest).trans hrecipe
      exact hother recipe hfound hstanding hfactory (Except.ok.inj (hidentity.symm.trans hcurrent))
    | diverged hr hcurrent =>
      rw [show s.exploredIdentity.lookup classId = some (explored, epoch) from hexplored] at hsame
      obtain ⟨rfl, -⟩ := Prod.mk.inj (Option.some.inj hsame)
      obtain rfl := Option.some.inj (hr.symm.trans hnow)
      omega

/-- What an exploration starts from. -/
theorem Good.restarts (h : Good rank spec i s) {s₀ : SimState C} {revision : ℕ}
    {current : RecipeIdentity} (hrestarts : Restarts rank spec factory classId s s₀ revision current) :
    Good rank spec i s₀ ∧ s₀.revision.lookup classId = some revision ∧
      identity C rank spec classId revision = .ok current ∧ s₀.engaged = s.engaged := by
  cases hrestarts with
  | stale hr hcurrent => exact ⟨h, hr, hcurrent, rfl⟩
  | diverged hr hcurrent =>
    have hdrifted : Drifted s
        { s with revision := s.revision.insert classId (_ + 1) } :=
      ⟨rfl, rfl, rfl, rfl, ⟨rfl, rfl⟩, raised_revision hr⟩
    exact ⟨h.drifted hdrifted h.epoch, AList.lookup_insert _, hcurrent, rfl⟩

/-- A recipe in the cache is one of the same payload after another of its digest is put there. -/
theorem compiled_recipe (hF : C.CollisionFree) (hS : SeparatesRecipes C) {d : String}
    {recipe new : CompiledRecipe C} (hcached : recipe.recipeDigest = d)
    (hrecipe : s.cache.lookup d = some recipe) (hstanding : recipe.standing = .structural)
    (hnew : new.standing = .structural) :
    ∃ recipe', (s.cache.insert new.recipeDigest new).lookup d = some recipe' ∧
      recipe'.standing = .structural ∧ recipe'.identity = recipe.identity := by
  rw [Table.lookup_insert]
  split_ifs with hd
  · have hpayload := payload_eq_of_digest hF hS (hcached.trans hd)
    exact ⟨new, rfl, hnew, by rw [hpayload]⟩
  · exact ⟨recipe, hrecipe, hstanding, rfl⟩

/-- What the factory compiles is kept beside what it compiled before. -/
theorem Good.compiling (hF : C.CollisionFree) (hS : SeparatesRecipes C) (h : Good rank spec i s)
    {revision : ℕ} {recipe : CompiledRecipe C} (hrevision : s.revision.lookup classId = some revision)
    (hidentity : identity C rank spec classId revision = .ok recipe.identity)
    (hstanding : recipe.standing = .structural) :
    Good rank spec i (FactorySim.compiled C s classId revision recipe) where
  epoch := h.epoch
  revision := h.revision
  cached d other hother := by
    change (s.cache.insert recipe.recipeDigest recipe).lookup d = some other at hother
    rw [Table.lookup_insert] at hother
    split_ifs at hother with hd
    · obtain rfl := Option.some.inj hother
      exact hd.symm
    · exact h.cached d other hother
  compiled other d hd := by
    change (s.index.insert classId recipe.recipeDigest).lookup other = some d at hd
    rw [Table.lookup_insert] at hd
    split_ifs at hd with hother
    · subst hother
      obtain rfl := Option.some.inj hd
      exact ⟨recipe, AList.lookup_insert _, hstanding, revision, s.epoch other, revision,
        AList.lookup_insert _, hidentity, hrevision, le_rfl⟩
    · obtain ⟨old, hold, holdStanding, explored, epoch, now, hexplored, holdIdentity, hnow, hle⟩ :=
        (h.compiled other d hd).recipe
      obtain ⟨kept, hkept, hkeptStanding, hsame⟩ :=
        compiled_recipe hF hS (h.cached d old hold) hold holdStanding hstanding
      refine ⟨kept, hkept, hkeptStanding, explored, epoch, now, ?_, hsame ▸ holdIdentity, hnow, hle⟩
      exact (AList.lookup_insert_ne hother).trans hexplored
  explored other hnone := by
    change (s.index.insert classId recipe.recipeDigest).lookup other = none at hnone
    rw [Table.lookup_insert] at hnone
    split_ifs at hnone with hother
    exact (AList.lookup_insert_ne hother).trans (h.explored other hnone)
  counts := h.counts

theorem Good.recorded (h : Good rank spec i s) (record : EngagementRecord) (candidate : String) :
    Good rank spec i (s.record record candidate) :=
  ⟨h.epoch, h.revision, h.cached, fun c d hd => ⟨(h.compiled c d hd).recipe⟩, h.explored, h.counts⟩

/-- What is said of a record. -/
structure Sound (C : Canon) (rank : Ranks) (spec : SimulationSpec) (factory : Bool) (i : ℕ)
    (e : Engaged) : Prop where
  index : e.record.index = i
  classId : e.record.classId = classOf rank spec i
  cognition : (factory = true ∧ e.record.cognitionEvals = 0) ∨ ∃ candidate receipts,
    explore C rank spec (classOf rank spec i) (epochAt spec i (classOf rank spec i)) =
      .ok (candidate, receipts, e.record.cognitionEvals)
  exploits : e.record.path = .exploit → e.candidate =
    truth rank spec (classOf rank spec i) (epochAt spec i (classOf rank spec i))
  verified : spec.authorityGranted = true → e.record.verified = true
  evals : e.record.verifyEvals ≤ 2 ∧ e.record.lookups = 1

/-- What an engagement keeps, and the record that it adds. -/
theorem Good.engages (hF : C.CollisionFree) (hS : SeparatesRecipes C) (h : Good rank spec i s)
    (hengages : Engages rank spec factory i s s') :
    Good rank spec i s' ∧ ∃ e, s'.engaged = s.engaged ++ [e] ∧ Sound C rank spec factory i e := by
  cases hengages with
  | refused candidate hfactory hdenied =>
    refine ⟨h.recorded _ _, _, rfl, rfl, rfl, .inl ⟨hfactory, rfl⟩, nofun, fun hgranted => ?_, ?_⟩
    · rw [hgranted] at hdenied
      cases hdenied
    · exact ⟨Nat.zero_le _, rfl⟩
  | exploited hfactory hgranted =>
    refine ⟨h.recorded _ _, _, rfl, rfl, rfl, .inl ⟨hfactory, rfl⟩, fun _ => ?_, fun _ => rfl, ?_⟩
    · rw [← h.epoch]
    · exact ⟨Nat.le_succ 1, rfl⟩
  | @explored s₀ s₁ revision current reason preVerify receipts evals hrestarts hpre hexplore
      hkeeping =>
    obtain ⟨hgood, hrevision, hidentity, hengaged⟩ := h.restarts hrestarts
    have hcounting : counting factory (classOf rank spec i) revision s₀ = s₀ := by
      simp [counting, not_redundant h hrestarts]
    rw [hcounting] at hkeeping
    have hkept : Good rank spec i s₁ ∧ s₁.engaged = s.engaged := by
      rcases keeping_eq_ok hkeeping with ⟨-, rfl⟩ | ⟨-, recipe, hpayload, hstanding, rfl⟩
      · exact ⟨hgood, hengaged⟩
      · refine ⟨hgood.compiling hF hS hrevision ?_ hstanding, hengaged⟩
        rw [hpayload]
        exact hidentity
    refine ⟨hkept.1.recorded _ _, _, by rw [← hkept.2]; rfl, ?_⟩
    rw [h.epoch] at hexplore
    unfold outcome
    split
    · exact ⟨rfl, rfl, .inr ⟨_, _, hexplore⟩, nofun, fun _ => rfl, by dsimp only [exploreRecord]; omega, rfl⟩
    · next hdenied =>
      exact ⟨rfl, rfl, .inr ⟨_, _, hexplore⟩, nofun, fun hgranted => absurd hgranted hdenied,
        by dsimp only [refusedRecord]; omega, rfl⟩

/-! ## Runs -/

theorem lookup_foldl_insert {classId : String} : ∀ {l : List String} {t : Table ℕ},
    (classId ∈ l ∨ ∃ r, t.lookup classId = some r) →
      ∃ r, (l.foldl (fun t classId => t.insert classId 0) t).lookup classId = some r
  | [], _, h => h.resolve_left List.not_mem_nil
  | other :: l, t, h => by
    refine lookup_foldl_insert (l := l) ?_
    rw [Table.lookup_insert]
    split_ifs with hother
    · exact .inr ⟨0, rfl⟩
    · exact h.imp_left fun hmem => (List.mem_cons.mp hmem).resolve_left hother

theorem epochAt_zero : epochAt spec 0 classId = 0 := by
  refine List.countP_eq_zero.mpr fun ev _ => ?_
  have hpos := ev.atEngagement_pos
  simp only [decide_eq_true_eq]
  omega

theorem good_initial : Good rank spec 0 (initial C spec) where
  epoch _ := epochAt_zero.symm
  revision _ hclass := lookup_foldl_insert (.inl hclass)
  cached _ _ h := nomatch h
  compiled _ _ h := nomatch h
  explored _ _ := rfl
  counts := ⟨rfl, rfl⟩

/-- What holds after some engagements, with their records. -/
structure Recorded (rank : Ranks) (spec : SimulationSpec) (factory : Bool) (i : ℕ)
    (s : SimState C) : Prop where
  good : Good rank spec i s
  length : s.engaged.length = i
  sound : ∀ k e, s.engaged[k]? = some e → Sound C rank spec factory (k + 1) e

/-- The drifts of an engagement and the engagement. -/
def turn (C : Canon) (rank : Ranks) (spec : SimulationSpec) (factory : Bool) (s : SimState C)
    (i : ℕ) : Except PyError (SimState C) := do
  let s ← drifts C spec i s
  engage C rank spec factory i s

theorem Recorded.turn (hF : C.CollisionFree) (hS : SeparatesRecipes C)
    (h : Recorded rank spec factory i s) (hturn : turn C rank spec factory s (i + 1) = .ok s') :
    Recorded rank spec factory (i + 1) s' := by
  obtain ⟨t, ht, hengage⟩ := Fallible.bind_eq_ok.mp hturn
  obtain ⟨hdrifted, hepoch⟩ := drifts_eq_ok ht h.good.epoch
  obtain ⟨hgood, e, he, hsound⟩ := (h.good.drifted hdrifted hepoch).engages hF hS (engage_cases hengage)
  rw [hdrifted.engaged] at he
  refine ⟨hgood, by rw [he, List.length_append, h.length]; rfl, fun k e' hk => ?_⟩
  rw [he] at hk
  rcases Nat.lt_or_ge k i with hlt | hge
  · rw [List.getElem?_append_left (by rw [h.length]; exact hlt)] at hk
    exact h.sound k e' hk
  · rw [List.getElem?_append_right (by rw [h.length]; exact hge), h.length,
      List.getElem?_singleton] at hk
    split_ifs at hk with hzero
    obtain rfl := Option.some.inj hk
    obtain rfl : k = i := by omega
    exact hsound

theorem engagements_eq : engagements C rank spec factory =
    (List.range' 1 spec.nEngagements).foldlM (turn C rank spec factory) (initial C spec) := rfl

theorem foldlM_snoc {σ : Type} {f : σ → ℕ → Except PyError σ} {a b : σ} {n : ℕ} :
    (List.range' 1 (n + 1)).foldlM f a = .ok b ↔
      ∃ c, (List.range' 1 n).foldlM f a = .ok c ∧ f c (n + 1) = .ok b := by
  rw [List.range'_1_concat, List.foldlM_append, Fallible.bind_eq_ok, Nat.add_comm 1 n]
  refine exists_congr fun c => and_congr_right fun _ => ?_
  simp only [List.foldlM_cons, List.foldlM_nil, bind_pure]

theorem recorded_run (hF : C.CollisionFree) (hS : SeparatesRecipes C) : ∀ {n : ℕ} {s : SimState C},
    (List.range' 1 n).foldlM (turn C rank spec factory) (initial C spec) = .ok s →
      Recorded rank spec factory n s
  | 0, s, h => by
    obtain rfl := Except.ok.inj h
    exact ⟨good_initial, rfl, fun k e hk => by cases hk⟩
  | n + 1, s, h => by
    obtain ⟨c, hc, hturn⟩ := foldlM_snoc.mp h
    exact (recorded_run hF hS hc).turn hF hS hturn

/-! ## Both arms -/

/-- What a run exploits is the truth of the class in the epoch of the engagement. -/
def AppliesTruth (C : Canon) (rank : Ranks) (spec : SimulationSpec) (factory : Bool)
    (records : List EngagementRecord) : Prop :=
  ∃ s : SimState C, engagements C rank spec factory = .ok s ∧
    records = s.engaged.map (·.record) ∧ ∀ k e, s.engaged[k]? = some e → e.record.path = .exploit →
      e.candidate = truth rank spec e.record.classId (epochAt spec (k + 1) e.record.classId)

/-- What is claimed of the two arms. -/
structure Compounds (C : Canon) (rank : Ranks) (spec : SimulationSpec) (f b : ArmResult) : Prop where
  /-- The same class at each engagement, and no more evaluations by the factory. -/
  cheaper : List.Forall₂ (fun r r' : EngagementRecord =>
    r.classId = r'.classId ∧ r.cognitionEvals ≤ r'.cognitionEvals) f.records b.records
  redundant : f.redundantExplorations = 0 ∧ b.redundantExplorations = 0
  unverified : f.unverifiedConsequences = 0 ∧ b.unverifiedConsequences = 0
  exploits : AppliesTruth C rank spec true f.records ∧ AppliesTruth C rank spec false b.records
  verified : spec.authorityGranted = true → ∀ r ∈ f.records ++ b.records, r.verified = true

theorem simulate_eq_ok {arm : String} {r : ArmResult} (h : simulate C rank spec arm = .ok r) :
    ∃ s d, engagements C rank spec (decide (arm = "factory")) = .ok s ∧
      r.records = s.engaged.map (·.record) ∧ r.redundantExplorations = s.redundant ∧
      r.unverifiedConsequences = s.unverified ∧
      C.digest (.list (r.records.map EngagementRecord.modelDump)) = .ok d := by
  unfold simulate at h
  split_ifs at h
  obtain ⟨s, hs, h⟩ := Fallible.bind_eq_ok.mp h
  obtain ⟨d, hd, h⟩ := Fallible.bind_eq_ok.mp h
  obtain rfl := Except.ok.inj h
  exact ⟨s, d, hs, rfl, rfl, rfl, hd⟩

theorem recorded_of_simulate (hF : C.CollisionFree) (hS : SeparatesRecipes C) {arm : String}
    {r : ArmResult} (h : simulate C rank spec arm = .ok r) :
    ∃ s : SimState C, engagements C rank spec (decide (arm = "factory")) = .ok s ∧
      Recorded rank spec (decide (arm = "factory")) spec.nEngagements s ∧
      r.records = s.engaged.map (·.record) ∧ r.redundantExplorations = 0 ∧
      r.unverifiedConsequences = 0 := by
  obtain ⟨s, d, hs, hrecords, hredundant, hunverified, -⟩ := simulate_eq_ok h
  have hrecorded : Recorded rank spec (decide (arm = "factory")) spec.nEngagements s :=
    recorded_run hF hS hs
  refine ⟨s, hs, hrecorded, hrecords, ?_, ?_⟩
  · rw [hredundant, hrecorded.good.counts.1]
  · rw [hunverified, hrecorded.good.counts.2]

theorem appliesTruth (hs : engagements C rank spec factory = .ok s)
    (h : Recorded rank spec factory spec.nEngagements s) :
    AppliesTruth C rank spec factory (s.engaged.map (·.record)) := by
  refine ⟨s, hs, rfl, fun k e hk hexploit => ?_⟩
  have hsound := h.sound k e hk
  rw [hsound.classId]
  exact hsound.exploits hexploit

theorem verified_of_recorded (h : Recorded rank spec factory i s)
    (hgranted : spec.authorityGranted = true) : ∀ r ∈ s.engaged.map (·.record), r.verified = true := by
  intro r hr
  obtain ⟨e, he, rfl⟩ := List.mem_map.mp hr
  obtain ⟨k, hk⟩ := List.mem_iff_getElem?.mp he
  exact (h.sound k e hk).verified hgranted

/-- Two records of one engagement. -/
theorem cheaper_of_sound {e e' : Engaged} (h : Sound C rank spec true i e)
    (h' : Sound C rank spec false i e') : e.record.classId = e'.record.classId ∧
      e.record.cognitionEvals ≤ e'.record.cognitionEvals := by
  refine ⟨h.classId.trans h'.classId.symm, ?_⟩
  obtain ⟨candidate', receipts', hexplore'⟩ := h'.cognition.resolve_left nofun
  rcases h.cognition with ⟨-, hnone⟩ | ⟨candidate, receipts, hexplore⟩
  · rw [hnone]
    exact Nat.zero_le _
  · rw [hexplore] at hexplore'
    obtain ⟨-, hrest⟩ := Prod.mk.inj (Except.ok.inj hexplore')
    exact (Prod.mk.inj hrest).2.le

theorem simulate_compounds (hF : C.CollisionFree) (hS : SeparatesRecipes C) {f b : ArmResult}
    (hf : simulate C rank spec "factory" = .ok f) (hb : simulate C rank spec "baseline" = .ok b) :
    Compounds C rank spec f b := by
  obtain ⟨s, hrun, hs, hrecords, hredundant, hunverified⟩ := recorded_of_simulate hF hS hf
  obtain ⟨s', hrun', hs', hrecords', hredundant', hunverified'⟩ := recorded_of_simulate hF hS hb
  refine ⟨?_, ⟨hredundant, hredundant'⟩, ⟨hunverified, hunverified'⟩, ⟨?_, ?_⟩,
    fun hgranted r hr => ?_⟩
  · rw [hrecords, hrecords', List.forall₂_map_left_iff, List.forall₂_map_right_iff,
      List.forall₂_iff_get]
    refine ⟨hs.length.trans hs'.length.symm, fun k hk hk' => ?_⟩
    exact cheaper_of_sound (hs.sound k _ (List.getElem?_eq_getElem hk))
      (hs'.sound k _ (List.getElem?_eq_getElem hk'))
  · rw [hrecords]
    exact appliesTruth hrun hs
  · rw [hrecords']
    exact appliesTruth hrun' hs'
  · rcases List.mem_append.mp hr with hr | hr
    · exact verified_of_recorded hs hgranted r (hrecords ▸ hr)
    · exact verified_of_recorded hs' hgranted r (hrecords' ▸ hr)

/-! ## That both arms return -/

/-- The integers of a specification that are digested have canonical forms. -/
structure Fits (spec : SimulationSpec) : Prop where
  engagements : spec.nEngagements ≤ MAX_INTEGER
  dispositions : spec.nDispositions + 14 ≤ MAX_INTEGER
  drifts : spec.driftEvents.length ≤ MAX_INTEGER

/-- Drifts are of classes that there are. -/
def DriftsExist (spec : SimulationSpec) : Prop := ∀ ev ∈ spec.driftEvents, ev.classId ∈ classes spec

theorem ne_empty_of_mem_classes (h : classId ∈ classes spec) : classId ≠ "" := by
  obtain ⟨k, -, rfl⟩ := List.mem_map.mp h
  exact append_ne_empty (by decide)

theorem classOf_mem : classOf rank spec i ∈ classes spec := by
  have hpos : 0 < (classes spec).length := by
    rw [classes, List.length_map, List.length_range]
    exact spec.nClasses_pos
  rw [classOf, List.getD_eq_getElem?_getD, List.getElem?_eq_getElem (Nat.mod_lt _ hpos)]
  exact List.getElem_mem _

theorem epochAt_le : epochAt spec i classId ≤ spec.driftEvents.length := List.countP_le_length

/-- A sequence returns when its first part does, and the second on what that returns. -/
theorem exists_bind {α β : Type} {x : Except PyError α} {f : α → Except PyError β} {a : α}
    (hx : x = .ok a) (hf : ∃ b, f a = .ok b) : ∃ b, x >>= f = .ok b := by
  rw [hx]
  exact hf

section Returns

variable (hC : C.Total) (hN : C.NamesDicts)
include hC hN

theorem exploring_ok {current : RecipeIdentity} {reason : ExploreReason} {preVerify revision : ℕ}
    (hepoch : s.epoch classId ≤ MAX_INTEGER) :
    ∃ s', exploring C rank spec factory i classId current reason preVerify revision s = .ok s' := by
  have hexplore : ∃ out, explore C rank spec classId (s.epoch classId) = .ok out :=
    explore_ok hC hepoch
  obtain ⟨⟨candidate, receipts, evals⟩, hexplore⟩ := hexplore
  obtain ⟨hfinds, hreceipts, -⟩ := explore_eq_ok hexplore
  obtain rfl : candidate = truth rank spec classId (s.epoch classId) := hfinds
  have hkeeping : ∃ s₁, keeping C factory classId current revision
      (truth rank spec classId (s.epoch classId)) receipts
      (counting factory classId revision s) = .ok s₁ := by
    unfold keeping
    split
    · obtain ⟨recipe, hrecipe⟩ := compileRecipe_ok hC hN (ne_empty_of_mem truth_mem) hreceipts
      exact ⟨_, by rw [hrecipe]; rfl⟩
    · exact ⟨_, rfl⟩
  obtain ⟨s₁, hkeeping⟩ := hkeeping
  have hepoch₁ : s₁.epoch classId = s.epoch classId := by
    rcases keeping_eq_ok hkeeping with ⟨-, rfl⟩ | ⟨-, recipe, -, -, rfl⟩ <;> rfl
  have heval : ∃ ref, evaluate C rank spec classId (s₁.epoch classId)
      (truth rank spec classId (s.epoch classId)) "rare" 0 = .ok (_, ref) :=
    evaluate_ok hC (hepoch₁ ▸ hepoch) (Nat.zero_le _)
  obtain ⟨ref, heval⟩ := heval
  refine exists_bind hexplore (exists_bind hkeeping (exists_bind (authorize_ok hC) ?_))
  split
  · exact exists_bind heval ⟨_, rfl⟩
  · exact ⟨_, rfl⟩

variable (hL : NamesLists C)
include hL

theorem exploiting_ok {recipe : CompiledRecipe C} {r : ℕ} (hepoch : s.epoch classId ≤ MAX_INTEGER)
    (hclass : classId ≠ "") (hr : s.revision.lookup classId = some r) :
    ∃ s', exploiting C rank spec factory i classId recipe s = .ok s' := by
  have heval : ∃ ref, evaluate C rank spec classId (s.epoch classId) recipe.candidateRef "rare" 0 =
      .ok (_, ref) := evaluate_ok hC hepoch (Nat.zero_le _)
  obtain ⟨ref, heval⟩ := heval
  have hidentity : ∃ current, identity C rank spec classId (r + 1) = .ok current :=
    identity_ok hC hL hclass (r + 1)
  obtain ⟨current, hidentity⟩ := hidentity
  refine exists_bind (authorize_ok hC) ?_
  split
  · refine exists_bind heval ?_
    dsimp only
    split
    · exact ⟨_, rfl⟩
    · refine exists_bind (revisionOf_eq_ok.mpr hr) (exists_bind hidentity ?_)
      exact exploring_ok hC hN hepoch
  · exact ⟨_, rfl⟩

theorem engage_ok (hfits : Fits spec) (h : Good rank spec i s) :
    ∃ s', engage C rank spec factory i s = .ok s' := by
  have hclass : classOf rank spec i ∈ classes spec := classOf_mem
  have hepoch : s.epoch (classOf rank spec i) ≤ MAX_INTEGER := by
    rw [h.epoch]
    exact epochAt_le.trans hfits.drifts
  obtain ⟨r, hr⟩ := h.revision _ hclass
  have hidentity : ∃ current, identity C rank spec (classOf rank spec i) r = .ok current :=
    identity_ok hC hL (ne_empty_of_mem_classes hclass) r
  obtain ⟨current, hidentity⟩ := hidentity
  refine exists_bind (revisionOf_eq_ok.mpr hr) (exists_bind hidentity ?_)
  split
  · exact exploiting_ok hC hN hL hepoch (ne_empty_of_mem_classes hclass) hr
  · exact exploring_ok hC hN hepoch

omit hC hN hL in
theorem drifts_ok (hexist : DriftsExist spec) (h : Good rank spec i s) :
    ∃ s', drifts C spec (i + 1) s = .ok s' := by
  have hrevision : ∀ ev ∈ spec.driftEvents.filter (·.atEngagement = i + 1),
      ∃ r, s.revision.lookup ev.classId = some r := fun ev hev =>
    h.revision _ (hexist ev (List.mem_of_mem_filter hev))
  clear h
  unfold drifts
  generalize spec.driftEvents.filter (·.atEngagement = i + 1) = l at hrevision
  induction l generalizing s with
  | nil => exact ⟨s, rfl⟩
  | cons ev l ih =>
    obtain ⟨⟨r, hr⟩, hrest⟩ := List.forall_mem_cons.mp hrevision
    have hdrift : ∃ t, drift C s ev = .ok t := by
      unfold drift
      split
      · exact exists_bind (revisionOf_eq_ok.mpr hr) ⟨_, rfl⟩
      · exact ⟨_, rfl⟩
    obtain ⟨t, ht⟩ := hdrift
    refine exists_bind ht (ih fun ev' hev' => ?_)
    obtain ⟨r', hr'⟩ := hrest ev' hev'
    obtain ⟨r'', hr'', -⟩ := (drift_eq_ok ht).1.revision _ _ hr'
    exact ⟨r'', hr''⟩

theorem turn_ok (hfits : Fits spec) (hexist : DriftsExist spec) (h : Good rank spec i s) :
    ∃ s', turn C rank spec factory s (i + 1) = .ok s' := by
  obtain ⟨t, ht⟩ := drifts_ok hexist h
  obtain ⟨hdrifted, hepoch⟩ := drifts_eq_ok ht h.epoch
  exact exists_bind ht (engage_ok hC hN hL hfits (h.drifted hdrifted hepoch))

variable (hF : C.CollisionFree) (hS : SeparatesRecipes C)
include hF hS

theorem run_ok (hfits : Fits spec) (hexist : DriftsExist spec) : ∀ n : ℕ, ∃ s : SimState C,
    (List.range' 1 n).foldlM (turn C rank spec factory) (initial C spec) = .ok s
  | 0 => ⟨_, rfl⟩
  | n + 1 => by
    obtain ⟨c, hc⟩ := run_ok hfits hexist n
    have hgood : Good rank spec n c := (recorded_run hF hS hc).good
    obtain ⟨s, hs⟩ := turn_ok hC hN hL hfits hexist hgood
    exact ⟨s, foldlM_snoc.mpr ⟨c, hc, hs⟩⟩

end Returns

/-- The records of a run have a canonical form. -/
theorem isCanonical_records (hfits : Fits spec)
    (h : Recorded rank spec factory spec.nEngagements s) :
    Value.isCanonical (.list ((s.engaged.map (·.record)).map EngagementRecord.modelDump)) = true := by
  rw [Value.isCanonical_list_iff]
  intro v hv
  obtain ⟨r, hr, rfl⟩ := List.mem_map.mp hv
  obtain ⟨e, he, rfl⟩ := List.mem_map.mp hr
  obtain ⟨k, hk⟩ := List.mem_iff_getElem?.mp he
  have hsound := h.sound k e hk
  have hindex : e.record.index ≤ MAX_INTEGER := by
    have hlt : k < s.engaged.length := (List.getElem?_eq_some_iff.mp hk).1
    have hmany := hfits.engagements
    rw [h.length] at hlt
    rw [hsound.index]
    omega
  have hcognition : e.record.cognitionEvals ≤ MAX_INTEGER := by
    rcases hsound.cognition with ⟨-, hnone⟩ | ⟨candidate, receipts, hexplore⟩
    · rw [hnone]
      exact Nat.zero_le _
    · exact (explore_eq_ok hexplore).2.2.trans hfits.dispositions
  have hverify : e.record.verifyEvals ≤ MAX_INTEGER := hsound.evals.1.trans (by decide)
  have hlookups : e.record.lookups ≤ MAX_INTEGER := by
    rw [hsound.evals.2]
    decide
  simp [EngagementRecord.modelDump, isCanonical_natCast, hindex, hcognition, hverify, hlookups]

theorem simulate_ok (hC : C.Total) (hN : C.NamesDicts) (hL : NamesLists C) (hF : C.CollisionFree)
    (hS : SeparatesRecipes C) (hfits : Fits spec) (hexist : DriftsExist spec) {arm : String}
    (harm : arm = "factory" ∨ arm = "baseline") : ∃ r, simulate C rank spec arm = .ok r := by
  have hrun : ∃ s : SimState C, engagements C rank spec (decide (arm = "factory")) = .ok s :=
    run_ok hC hN hL hF hS hfits hexist spec.nEngagements
  obtain ⟨s, hs⟩ := hrun
  have hrecorded : Recorded rank spec (decide (arm = "factory")) spec.nEngagements s :=
    recorded_run hF hS hs
  obtain ⟨d, hd⟩ := hC.digest (isCanonical_records hfits hrecorded)
  unfold simulate
  rw [if_pos harm]
  exact exists_bind hs (exists_bind hd ⟨_, rfl⟩)

/-- Only the empty text has the empty digest. -/
theorem render_of_digest_empty {v : Value} (h : Canon.reference.digest v = .ok "") :
    v.render = .ok "" := by
  unfold Canon.digest Canon.canonicalBytes Canon.reference at h
  dsimp only at h
  cases hv : v.render with
  | error e =>
    rw [hv] at h
    cases h
  | ok t =>
    rw [hv] at h
    have hbytes : t.toUTF8.data.toList = [] :=
      List.map_eq_nil_iff.mp (String.ofList_eq_empty_iff.mp (Except.ok.inj h))
    have hempty : t.toUTF8 = "".toUTF8 := ByteArray.ext (Array.toList_inj.mp hbytes)
    rw [String.toByteArray_inj.mp hempty]

theorem reference_namesLists : NamesLists Canon.reference := by
  intro items d h hd
  subst hd
  have hrender := render_of_digest_empty h
  rw [Value.render] at hrender
  cases hi : Value.renderList items with
  | error e =>
    rw [hi] at hrender
    cases hrender
  | ok ts =>
    rw [hi] at hrender
    have hempty := (String.append_eq_empty_iff.mp (Except.ok.inj hrender)).2
    exact absurd hempty (by decide)

/-- A specification of so many engagements. -/
def longSpec (n : ℕ) (hn : 1 ≤ n) : SimulationSpec where
  nEngagements := n
  nClasses_pos := by decide
  nEngagements_pos := hn
  nDispositions_le := by decide

theorem zero_lt_sixteen : 0 < 16 := by decide

def sampleRanks : Ranks := fun _ _ => ⟨[⟨0, zero_lt_sixteen⟩], List.cons_ne_nil _ _⟩

/-- The last record has the number of engagements as its index. -/
theorem nEngagements_le (hC : C.Exact) (hF : C.CollisionFree) (hS : SeparatesRecipes C)
    {arm : String} {r : ArmResult} (h : simulate C rank spec arm = .ok r) :
    spec.nEngagements ≤ MAX_INTEGER := by
  obtain ⟨s, d, hs, hrecords, -, -, hd⟩ := simulate_eq_ok h
  have hrecorded : Recorded rank spec (decide (arm = "factory")) spec.nEngagements s :=
    recorded_run hF hS hs
  have hpos := spec.nEngagements_pos
  have hlast : spec.nEngagements - 1 < s.engaged.length := by
    rw [hrecorded.length]
    omega
  have hsound := hrecorded.sound _ _ (List.getElem?_eq_getElem hlast)
  have hrecord : s.engaged[spec.nEngagements - 1].record.modelDump ∈
      r.records.map EngagementRecord.modelDump := by
    rw [hrecords]
    exact List.mem_map_of_mem (List.mem_map_of_mem (List.getElem_mem hlast))
  have hbytes : ∃ bytes, C.dumps (.list (r.records.map EngagementRecord.modelDump)) = .ok bytes := by
    unfold Canon.digest Canon.canonicalBytes at hd
    cases hdumps : C.dumps (.list (r.records.map EngagementRecord.modelDump)) with
    | error e =>
      rw [hdumps] at hd
      cases hd
    | ok bytes => exact ⟨bytes, rfl⟩
  have hcanonical := (Value.isCanonical_list_iff _).mp ((hC _).mp hbytes) _ hrecord
  simp only [EngagementRecord.modelDump, Value.isCanonical_dict, Value.isCanonicalItems_cons,
    Bool.and_eq_true] at hcanonical
  have hindex := isCanonical_natCast.mp hcanonical.1
  rw [hsound.index] at hindex
  omega

end FactorySim

end GymAct
