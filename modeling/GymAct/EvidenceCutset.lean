import Mathlib.Data.String.Basic
import GymAct.SubsetsBySize

/-!
# Minimal cut sets

`cutset.py` of `explore_evidence_composition` : the failed evidence sets that meet every
requirement. They are listed by size, so that each is compared with the cuts already found only,
and these are all the minimal ones below it (`mem_minimalCutSets`).
-/

namespace GymAct

namespace EvidenceCutset

/-- `all(candidate & group for group in groups)`. -/
def MeetsAll (groups : List (Finset String)) (candidate : Finset String) : Prop :=
  ∀ group ∈ groups, (candidate ∩ group).Nonempty

instance (groups : List (Finset String)) : DecidablePred (MeetsAll groups) :=
  fun candidate => inferInstanceAs (Decidable (∀ group ∈ groups, (candidate ∩ group).Nonempty))

/-- The body of the loops of `minimal_cut_sets`. -/
def addCut (groups : List (Finset String)) (cuts : List (Finset String))
    (candidate : Finset String) : List (Finset String) :=
  if groups ≠ [] ∧ MeetsAll groups candidate ∧ ¬∃ existing ∈ cuts, existing < candidate then
    cuts ++ [candidate]
  else cuts

/-- `minimal_cut_sets`. The requirements are the items of a `dict`. -/
def minimalCutSets (requirements : List (String × Finset String)) (failed : Finset String) :
    List (Finset String) :=
  let sorted := failed.sort (· ≤ ·)
  let groups := requirements.map Prod.snd
  (List.range' 1 sorted.length).foldl
    (fun cuts size => (SubsetsBySize.combinations size sorted).foldl
      (fun cuts combo => addCut groups cuts combo.toFinset) cuts) []

variable {requirements : List (String × Finset String)} {failed : Finset String}

theorem minimalCutSets_eq (hne : requirements ≠ []) (failed : Finset String) :
    minimalCutSets requirements failed =
      MinimalPass.keepMinimal (MeetsAll (requirements.map Prod.snd))
        (SubsetsBySize.bySize failed) := by
  have hadd : addCut (requirements.map Prod.snd) =
      MinimalPass.keep (MeetsAll (requirements.map Prod.snd)) := by
    ext cuts candidate : 2
    simp [addCut, MinimalPass.keep, hne]
  simp only [minimalCutSets, MinimalPass.keepMinimal, SubsetsBySize.bySize, List.foldl_flatMap,
    SubsetsBySize.ofSize, List.foldl_map, Finset.length_sort, hadd]

theorem not_meetsAll_empty (hne : requirements ≠ []) :
    ¬MeetsAll (requirements.map Prod.snd) ∅ := by
  obtain ⟨requirement, hmem⟩ := List.exists_mem_of_ne_nil requirements hne
  intro h
  simpa using h requirement.2 (List.mem_map_of_mem hmem)

/-- The cuts are, each once, the failed sets that meet every requirement and have no proper
subset that does. -/
theorem mem_minimalCutSets (requirements : List (String × Finset String))
    (hne : requirements ≠ []) (failed : Finset String) :
    (minimalCutSets requirements failed).Nodup ∧
      ∀ cut, cut ∈ minimalCutSets requirements failed ↔
        cut ⊆ failed ∧ (∀ requirement ∈ requirements, (cut ∩ requirement.2).Nonempty) ∧
          ∀ part, part ⊂ cut → ¬∀ requirement ∈ requirements, (part ∩ requirement.2).Nonempty := by
  have hmeets : ∀ cut, MeetsAll (requirements.map Prod.snd) cut ↔
      ∀ requirement ∈ requirements, (cut ∩ requirement.2).Nonempty := fun cut =>
    List.forall_mem_map
  rw [minimalCutSets_eq hne]
  refine ⟨SubsetsBySize.nodup_bySize.sublist (MinimalPass.keepMinimal_sublist _), fun cut => ?_⟩
  rw [MinimalPass.mem_keepMinimal (SubsetsBySize.bySize_ordered (not_meetsAll_empty hne)),
    SubsetsBySize.mem_bySize, minimal_iff_forall_lt]
  simp only [hmeets]
  constructor
  · rintro ⟨⟨hsub, -⟩, hcut, hmin⟩
    exact ⟨hsub, hcut, fun part hpart => hmin hpart⟩
  · rintro ⟨hsub, hcut, hmin⟩
    refine ⟨⟨hsub, Finset.nonempty_iff_ne_empty.mpr ?_⟩, hcut, fun part hpart => hmin hpart⟩
    rintro rfl
    exact not_meetsAll_empty hne ((hmeets ∅).mpr hcut)

/-- A deploy is backed by the tests or by the review, and a release by the review or by the
audit. The failed review alone cuts both. -/
theorem mem_minimalCutSets_release :
    let requirements : List (String × Finset String) :=
      [("deploy", {"tests", "review"}), ("release", {"review", "audit"})]
    let cuts := minimalCutSets requirements {"tests", "review", "audit"}
    {"review"} ∈ cuts ∧ {"tests", "review"} ∉ cuts := by
  intro requirements cuts
  have hcuts := (mem_minimalCutSets requirements (by decide) {"tests", "review", "audit"}).2
  refine ⟨(hcuts _).mpr ⟨by decide, by decide, fun part hpart => ?_⟩, fun h => ?_⟩
  · obtain rfl := Finset.ssubset_singleton_iff.mp hpart
    decide
  · exact ((hcuts _).mp h).2.2 {"review"} (by decide) (by decide)

end EvidenceCutset

end GymAct
