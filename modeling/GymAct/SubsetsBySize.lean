import Mathlib.Data.Finset.Sort
import Mathlib.Data.List.Induction
import Mathlib.Data.List.Sublists
import Mathlib.Order.Minimal

/-!
# Subsets by size, and the minimal ones

`combinations` lists the sublists of one length as `itertools.combinations` does. The subsets of
a set, by size, are an order in which no subset comes before a part of it, so one pass that drops
what contains something kept keeps what is minimal (`mem_keepMinimal`).
-/

/-! ## A pass that keeps what is minimal -/

namespace MinimalPass

variable {α : Type*} [PartialOrder α] {P : α → Prop}

/-- Nothing is below what comes before it, and what satisfies `P` below an element is listed. -/
structure Ordered (P : α → Prop) (l : List α) : Prop where
  pairwise : l.Pairwise fun a b => ¬b < a
  lower : ∀ a ∈ l, ∀ b < a, P b → b ∈ l

theorem Ordered.init {l : List α} {a : α} (h : Ordered P (l ++ [a])) : Ordered P l where
  pairwise := (List.pairwise_append.mp h.pairwise).1
  lower := by
    intro b hb c hcb hc
    have hmem := h.lower b (List.mem_append_left _ hb) c hcb hc
    rcases List.mem_append.mp hmem with hmem | hmem
    · exact hmem
    · obtain rfl := List.mem_singleton.mp hmem
      exact absurd hcb ((List.pairwise_append.mp h.pairwise).2.2 b hb c (List.mem_singleton_self c))

variable [DecidableLT α] [DecidablePred P]

/-- What satisfies `P` is kept unless something kept is below it. -/
def keep (P : α → Prop) [DecidablePred P] (kept : List α) (a : α) : List α :=
  if P a ∧ ¬∃ b ∈ kept, b < a then kept ++ [a] else kept

def keepMinimal (P : α → Prop) [DecidablePred P] (l : List α) : List α := l.foldl (keep P) []

@[simp] theorem keepMinimal_append_singleton (l : List α) (a : α) :
    keepMinimal P (l ++ [a]) = keep P (keepMinimal P l) a := by
  simp [keepMinimal]

theorem keepMinimal_sublist (l : List α) : (keepMinimal P l).Sublist l := by
  induction l using List.reverseRecOn with
  | nil => exact List.Sublist.refl _
  | append_singleton l a ih =>
    rw [keepMinimal_append_singleton, keep]
    split
    · exact ih.append (List.Sublist.refl _)
    · exact ih.trans (List.sublist_append_left l [a])

theorem mem_keepMinimal [WellFoundedLT α] {l : List α} (h : Ordered P l) {x : α} :
    x ∈ keepMinimal P l ↔ x ∈ l ∧ Minimal P x := by
  induction l using List.reverseRecOn generalizing x with
  | nil => simp [keepMinimal]
  | append_singleton l a ih =>
    have hkept : ∀ {x}, x ∈ keepMinimal P l ↔ x ∈ l ∧ Minimal P x := ih h.init
    have hminimal : (P a ∧ ¬∃ b ∈ keepMinimal P l, b < a) ↔ Minimal P a := by
      refine ⟨fun ⟨ha, hbelow⟩ => minimal_iff_forall_lt.mpr ⟨ha, fun b hb hPb => hbelow ?_⟩,
        fun ha => ⟨ha.prop, ?_⟩⟩
      · -- below what is not minimal there is something minimal, which is listed before it
        obtain ⟨c, hcb, hc⟩ := exists_minimal_le_of_wellFoundedLT P b hPb
        have hca := hcb.trans_lt hb
        refine ⟨c, hkept.mpr ⟨?_, hc⟩, hca⟩
        have hmem := h.lower a (by simp) c hca hc.prop
        rcases List.mem_append.mp hmem with hmem | hmem
        · exact hmem
        · exact absurd (List.mem_singleton.mp hmem) hca.ne
      · rintro ⟨b, hb, hba⟩
        exact (minimal_iff_forall_lt.mp ha).2 hba (hkept.mp hb).2.prop
    rw [keepMinimal_append_singleton, keep]
    split
    · next ha =>
      have ha := hminimal.mp ha
      simp only [List.mem_append, List.mem_singleton, hkept, or_and_right]
      exact or_congr_right ⟨fun hx => ⟨hx, hx ▸ ha⟩, And.left⟩
    · next ha =>
      simp only [List.mem_append, List.mem_singleton, hkept, or_and_right]
      refine ⟨Or.inl, fun hx => hx.resolve_right ?_⟩
      rintro ⟨rfl, hmin⟩
      exact ha (hminimal.mpr hmin)

end MinimalPass

/-! ## The subsets of a set -/

namespace SubsetsBySize

variable {α : Type*}

/-- `itertools.combinations(l, size)`. -/
def combinations : ℕ → List α → List (List α)
  | 0, _ => [[]]
  | _ + 1, [] => []
  | size + 1, a :: l => (combinations size l).map (a :: ·) ++ combinations (size + 1) l

theorem combinations_perm : ∀ (size : ℕ) (l : List α),
    (combinations size l).Perm (l.sublistsLen size)
  | 0, l => by simp [combinations]
  | size + 1, [] => by simp [combinations]
  | size + 1, a :: l => by
    rw [combinations, List.sublistsLen_succ_cons]
    exact (((combinations_perm size l).map _).append (combinations_perm (size + 1) l)).trans
      List.perm_append_comm

theorem mem_combinations {size : ℕ} {l c : List α} :
    c ∈ combinations size l ↔ c.Sublist l ∧ c.length = size :=
  (combinations_perm size l).mem_iff.trans List.mem_sublistsLen

theorem nodup_combinations {size : ℕ} {l : List α} (hl : l.Nodup) : (combinations size l).Nodup :=
  (combinations_perm size l).nodup_iff.mpr (List.nodup_sublistsLen size hl)

variable [LinearOrder α] {s t : Finset α} {size : ℕ}

/-- The subsets of one size, as sets. -/
def ofSize (s : Finset α) (size : ℕ) : List (Finset α) :=
  (combinations size (s.sort (· ≤ ·))).map List.toFinset

theorem mem_ofSize : t ∈ ofSize s size ↔ t ⊆ s ∧ t.card = size := by
  simp only [ofSize, List.mem_map, mem_combinations]
  constructor
  · rintro ⟨c, ⟨hsub, rfl⟩, rfl⟩
    have hnodup : c.Nodup := hsub.nodup (s.sort_nodup _)
    refine ⟨fun a ha => ?_, List.toFinset_card_of_nodup hnodup⟩
    exact (s.mem_sort _).mp (hsub.subset (List.mem_toFinset.mp ha))
  · rintro ⟨hsub, rfl⟩
    refine ⟨t.sort (· ≤ ·), ⟨?_, t.length_sort _⟩, t.sort_toFinset _⟩
    exact List.sublist_of_subperm_of_pairwise
      ((t.sort_nodup _).subperm fun a ha => (s.mem_sort _).mpr (hsub ((t.mem_sort _).mp ha)))
      (t.pairwise_sort _) (s.pairwise_sort _)

theorem nodup_ofSize : (ofSize s size).Nodup := by
  refine (nodup_combinations (s.sort_nodup _)).map_on fun c hc d hd h => ?_
  have hsub : ∀ c ∈ combinations size (s.sort (· ≤ ·)), c.Sublist (s.sort (· ≤ ·)) :=
    fun c hc => (mem_combinations.mp hc).1
  refine List.Perm.eq_of_pairwise' ((s.pairwise_sort _).sublist (hsub c hc))
    ((s.pairwise_sort _).sublist (hsub d hd)) ?_
  exact List.perm_of_nodup_nodup_toFinset_eq ((hsub c hc).nodup (s.sort_nodup _))
    ((hsub d hd).nodup (s.sort_nodup _)) h

/-- The non-empty subsets, the smallest first. -/
def bySize (s : Finset α) : List (Finset α) := (List.range' 1 s.card).flatMap (ofSize s)

theorem mem_bySize : t ∈ bySize s ↔ t ⊆ s ∧ t.Nonempty := by
  simp only [bySize, List.mem_flatMap, mem_ofSize, List.mem_range'_1, ← Finset.card_pos]
  constructor
  · rintro ⟨size, hsize, hsub, rfl⟩
    exact ⟨hsub, by omega⟩
  · rintro ⟨hsub, hpos⟩
    have hle := Finset.card_le_card hsub
    exact ⟨t.card, by omega, hsub, rfl⟩

theorem bySize_pairwise : (bySize s).Pairwise fun a b => a ≠ b ∧ ¬b < a := by
  refine List.pairwise_flatMap.mpr ⟨fun size _ => ?_, ?_⟩
  · have hnodup : (ofSize s size).Nodup := nodup_ofSize
    refine hnodup.imp_of_mem fun ha hb hne => ⟨hne, fun hlt => ?_⟩
    have hcard := Finset.card_lt_card hlt
    rw [(mem_ofSize.mp ha).2, (mem_ofSize.mp hb).2] at hcard
    omega
  · refine (List.pairwise_lt_range' 1).imp fun hlt a ha b hb => ?_
    have ha := (mem_ofSize.mp ha).2
    have hb := (mem_ofSize.mp hb).2
    refine ⟨fun h => ?_, fun h => ?_⟩
    · subst h
      omega
    · have hcard := Finset.card_lt_card h
      omega

theorem nodup_bySize : (bySize s).Nodup := bySize_pairwise.imp And.left

theorem bySize_ordered {P : Finset α → Prop} (hP : ¬P ∅) : MinimalPass.Ordered P (bySize s) where
  pairwise := bySize_pairwise.imp And.right
  lower := by
    intro a ha b hb hPb
    refine mem_bySize.mpr ⟨hb.subset.trans (mem_bySize.mp ha).1, ?_⟩
    exact Finset.nonempty_iff_ne_empty.mpr fun h => hP (h ▸ hPb)

end SubsetsBySize
