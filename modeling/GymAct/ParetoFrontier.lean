import GymAct.Combinatorial
import GymAct.Undominated

/-!
# The Pareto frontier

`_dominates` is a strict order on paths : no objective is worse and one is better. So
`pareto_paths` is the list of undominated paths, and what it leaves out is dominated by what it
keeps (`pareto_frontier_exact`).
-/

namespace GymAct

open Undominated

/-- `_dominates` in terms of the objectives. -/
theorem dominates_iff {left right : PossibilityPath} : dominates left right = true ↔
    (left.objectives.monetaryCost ≤ right.objectives.monetaryCost ∧
      left.objectives.wallTimeS ≤ right.objectives.wallTimeS ∧
      left.objectives.computeUnits ≤ right.objectives.computeUnits ∧
      left.objectives.humanInterventions ≤ right.objectives.humanInterventions ∧
      left.objectives.riskScore ≤ right.objectives.riskScore ∧
      right.objectives.verificationConfidence ≤ left.objectives.verificationConfidence ∧
      right.objectives.expectedValue ≤ left.objectives.expectedValue) ∧
    (left.objectives.monetaryCost < right.objectives.monetaryCost ∨
      left.objectives.wallTimeS < right.objectives.wallTimeS ∨
      left.objectives.computeUnits < right.objectives.computeUnits ∨
      left.objectives.humanInterventions < right.objectives.humanInterventions ∨
      left.objectives.riskScore < right.objectives.riskScore ∨
      right.objectives.verificationConfidence < left.objectives.verificationConfidence ∨
      right.objectives.expectedValue < left.objectives.expectedValue) := by
  simp [dominates]

theorem dominates_self (p : PossibilityPath) : dominates p p = false := by
  by_contra h
  obtain ⟨-, hbetter⟩ := dominates_iff.mp (Bool.eq_true_of_not_eq_false h)
  simp at hbetter

theorem dominates_trans {p q r : PossibilityPath} (hpq : dominates p q = true)
    (hqr : dominates q r = true) : dominates p r = true := by
  obtain ⟨⟨m, w, c, h, s, v, e⟩, hbetter⟩ := dominates_iff.mp hpq
  obtain ⟨⟨m', w', c', h', s', v', e'⟩, -⟩ := dominates_iff.mp hqr
  refine dominates_iff.mpr ⟨⟨m.trans m', w.trans w', c.trans c', h.trans h', s.trans s',
    v'.trans v, e'.trans e⟩, ?_⟩
  -- what is better at the first step stays better
  rcases hbetter with hm | hw | hc | hh | hs | hv | he
  · exact Or.inl (hm.trans_le m')
  · exact Or.inr (Or.inl (hw.trans_le w'))
  · exact Or.inr (Or.inr (Or.inl (hc.trans_le c')))
  · exact Or.inr (Or.inr (Or.inr (Or.inl (hh.trans_le h'))))
  · exact Or.inr (Or.inr (Or.inr (Or.inr (Or.inl (hs.trans_le s')))))
  · exact Or.inr (Or.inr (Or.inr (Or.inr (Or.inr (Or.inl (v'.trans_lt hv))))))
  · exact Or.inr (Or.inr (Or.inr (Or.inr (Or.inr (Or.inr (e'.trans_lt he))))))

instance : IsStrictOrder PossibilityPath fun p q => dominates p q = true where
  irrefl p h := by simp [dominates_self] at h
  trans _ _ _ := dominates_trans

theorem paretoPaths_eq (paths : List PossibilityPath) :
    paretoPaths paths = undominated (fun p q => dominates p q = true) paths := by
  unfold paretoPaths undominated
  refine List.filter_congr fun p _ => ?_
  rw [Bool.eq_iff_iff]
  simp

/-- The frontier is the listed paths that no listed path dominates, in their order and as often
as they are listed. Each path left out is dominated by one of the frontier, and the frontier is
its own frontier and that of every reordering. -/
theorem pareto_frontier_exact (paths : List PossibilityPath) :
    (paretoPaths paths).Sublist paths ∧
    (∀ p, (paretoPaths paths).count p =
      if ∃ q ∈ paths, dominates q p = true then 0 else paths.count p) ∧
    (∀ p ∈ paths, p ∉ paretoPaths paths → ∃ q ∈ paretoPaths paths, dominates q p = true) ∧
    (paths ≠ [] → paretoPaths paths ≠ []) ∧
    paretoPaths (paretoPaths paths) = paretoPaths paths ∧
    ∀ paths', paths'.Perm paths → (paretoPaths paths').Perm (paretoPaths paths) := by
  simp only [paretoPaths_eq]
  refine ⟨undominated_sublist paths, count_undominated paths, fun p hp hdropped => ?_,
    undominated_ne_nil, undominated_undominated paths, fun paths' h => undominated_perm h⟩
  refine exists_kept_of_dominated hp ?_
  by_contra hfree
  exact hdropped (mem_undominated.mpr ⟨hp, fun q hq hqp => hfree ⟨q, hq, hqp⟩⟩)

end GymAct
