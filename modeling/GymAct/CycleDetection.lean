import GymAct.Fallible
import GymAct.StructuralScan

/-!
# Cycles of a possibility graph

`_has_cycle` keeps the objects on its way (`visiting`), which all lead to the object it visits, and
those it is done with (`visited`), each of which leads to some that were done before it
(`Settled`). So it finds an object on its way only if there is a cycle, and is done with all
objects only if there is none.

`structuralScan_cyclic_iff` : `cyclic` is reported if and only if some object reaches itself.
-/

namespace GymAct

open Relation

namespace PossibilityGraph

/-- A morphism leads from one object to another. -/
def Follows (g : PossibilityGraph) (a b : String) : Prop :=
  ∃ edge ∈ g.morphisms, edge.sourceId = a ∧ edge.targetId = b

/-- Some object reaches itself along one or more morphisms. -/
def Cyclic (g : PossibilityGraph) : Prop :=
  ∃ id ∈ g.objects.map PossibilityObject.objectId, TransGen g.Follows id id

variable {g : PossibilityGraph}

theorem mem_targets {node target : String} :
    target ∈ (g.outgoing node).map PossibilityMorphism.targetId ↔ g.Follows node target := by
  simp only [List.mem_map, mem_outgoing, Follows, and_assoc]

theorem Valid.known (hg : g.Valid) {a b : String} (h : g.Follows a b) :
    a ∈ g.objects.map PossibilityObject.objectId ∧ b ∈ g.objects.map PossibilityObject.objectId := by
  obtain ⟨edge, hedge, rfl, rfl⟩ := h
  exact hg.endpoints edge hedge

theorem Valid.cyclic_of_transGen (hg : g.Valid) {id : String} (h : TransGen g.Follows id id) :
    g.Cyclic := by
  obtain ⟨b, hb, -⟩ := TransGen.head'_iff.mp h
  exact ⟨id, (hg.known hb).1, h⟩

theorem Valid.perm (hg : g.Valid) {listed : PossibilityGraph}
    (hobjects : listed.objects.Perm g.objects) (hmorphisms : listed.morphisms.Perm g.morphisms) :
    listed.Valid where
  objectIds := (hobjects.map _).nodup_iff.mpr hg.objectIds
  morphismIds := (hmorphisms.map _).nodup_iff.mpr hg.morphismIds
  endpoints := fun edge hedge => by
    simp only [(hobjects.map PossibilityObject.objectId).mem_iff]
    exact hg.endpoints edge (hmorphisms.mem_iff.mp hedge)

theorem cyclic_congr {listed : PossibilityGraph} (hobjects : listed.objects.Perm g.objects)
    (hmorphisms : listed.morphisms.Perm g.morphisms) : listed.Cyclic ↔ g.Cyclic := by
  have hfollows : listed.Follows = g.Follows := by
    ext a b
    simp only [Follows, hmorphisms.mem_iff]
  simp only [Cyclic, hfollows, (hobjects.map PossibilityObject.objectId).mem_iff]

end PossibilityGraph

namespace StructuralScan

variable {g : PossibilityGraph}

/-! ## Objects that are done with -/

/-- Each object leads to objects further down the list only. -/
def Settled (g : PossibilityGraph) : List String → Prop
  | [] => True
  | node :: done => (∀ target, g.Follows node target → target ∈ done) ∧ Settled g done

theorem acc_of_settled : ∀ {done : List String}, Settled g done → ∀ node ∈ done,
    Acc (fun b a => g.Follows a b) node
  | [], _, _, h => (List.not_mem_nil h).elim
  | head :: done, hsettled, node, h => by
    rcases List.mem_cons.mp h with rfl | h
    · exact ⟨node, fun target htarget => acc_of_settled hsettled.2 target (hsettled.1 target htarget)⟩
    · exact acc_of_settled hsettled.2 node h

theorem not_transGen_of_acc {node : String} (h : Acc (fun b a => g.Follows a b) node) :
    ¬TransGen g.Follows node node := by
  induction h with
  | intro node _ ih =>
    intro hcycle
    obtain ⟨next, hnext, hback⟩ := TransGen.head'_iff.mp hcycle
    exact ih next hnext (TransGen.tail' hback hnext)

/-! ## The search is exact -/

/-- What is found is a cycle, and what is not found leaves all nodes done with. -/
def Exact (g : PossibilityGraph) (nodes : List String) (s : CycleSearch) (outcome : SearchOutcome) :
    Prop :=
  ∀ found s', outcome = some (.ok (found, s')) → if found = true then g.Cyclic else
    Settled g s'.visited ∧ s'.visiting = s.visiting ∧ s.visited ⊆ s'.visited ∧ nodes ⊆ s'.visited

theorem visitAny_exact {visit : String → CycleSearch → SearchOutcome} {visiting : List String} :
    ∀ {nodes : List String}, (∀ node ∈ nodes, ∀ s : CycleSearch, s.visiting = visiting →
      Settled g s.visited → Exact g [node] s (visit node s)) → ∀ s : CycleSearch,
      s.visiting = visiting → Settled g s.visited → Exact g nodes s (visitAny visit nodes s)
  | [], _, s, _, hsettled, found, s', h => by
    cases h
    exact ⟨hsettled, rfl, List.Subset.refl _, List.nil_subset _⟩
  | node :: nodes, hvisit, s, hs, hsettled, found, s', h => by
    have hnode := hvisit node List.mem_cons_self s hs hsettled
    unfold visitAny at h
    split at h
    · next s₁ heq =>
      obtain ⟨hsettled₁, hvisiting₁, hsub₁, hmem₁⟩ := hnode false s₁ heq
      have hrest := visitAny_exact (fun n hn => hvisit n (List.mem_cons_of_mem _ hn)) s₁
        (hvisiting₁.trans hs) hsettled₁ found s' h
      cases found with
      | true => exact hrest
      | false =>
        obtain ⟨hsettled', hvisiting', hsub', hmem'⟩ := hrest
        exact ⟨hsettled', hvisiting'.trans hvisiting₁, fun v hv => hsub' (hsub₁ hv),
          List.cons_subset.mpr ⟨hsub' (hmem₁ List.mem_cons_self), hmem'⟩⟩
    · next hother =>
      cases found with
      | true => exact hnode true s' h
      | false => exact absurd h (hother s')

/-- All that is being visited leads to the node. -/
theorem visit_exact (hg : g.Valid) : ∀ {depth : ℕ} {node : String} {s : CycleSearch},
    (∀ v ∈ s.visiting, TransGen g.Follows v node) → Settled g s.visited →
      Exact g [node] s (visit g depth node s)
  | 0, _, _, _, _, _, _, h => by cases h
  | depth + 1, node, s, hway, hsettled, found, s', h => by
    unfold visit at h
    split at h
    · next hvisiting =>
      cases h
      exact hg.cyclic_of_transGen (hway node hvisiting)
    split at h
    · next hvisited =>
      cases h
      exact ⟨hsettled, rfl, List.Subset.refl _, List.cons_subset.mpr ⟨hvisited, List.nil_subset _⟩⟩
    split at h
    · cases h
    · next targets hadjacent =>
      have htargets : targets = (g.outgoing node).map PossibilityMorphism.targetId := by
        unfold adjacency at hadjacent
        split at hadjacent
        · exact (Except.ok.inj hadjacent).symm
        · cases hadjacent
      subst htargets
      have hloop : Exact g ((g.outgoing node).map PossibilityMorphism.targetId)
          { s with visiting := node :: s.visiting } (visitAny (visit g depth)
            ((g.outgoing node).map PossibilityMorphism.targetId)
            { s with visiting := node :: s.visiting }) := by
        refine visitAny_exact (fun target htarget s₁ hs₁ hsettled₁ => ?_) _ rfl hsettled
        have hfollows := PossibilityGraph.mem_targets.mp htarget
        refine visit_exact hg (fun v hv => ?_) hsettled₁
        rw [hs₁] at hv
        rcases List.mem_cons.mp hv with rfl | hv
        · exact .single hfollows
        · exact (hway v hv).tail hfollows
      split at h
      · next s₁ heq =>
        cases h
        obtain ⟨hsettled₁, hvisiting₁, hsub₁, hmem₁⟩ := hloop false s₁ heq
        refine ⟨⟨fun target htarget => hmem₁ (PossibilityGraph.mem_targets.mpr htarget), hsettled₁⟩,
          ?_, fun v hv => List.mem_cons_of_mem _ (hsub₁ hv), ?_⟩
        · simp [hvisiting₁]
        · exact List.cons_subset.mpr ⟨List.mem_cons_self, List.nil_subset _⟩
      · next hother =>
        cases found with
        | true => exact hloop true s' h
        | false => exact absurd h (hother s')

theorem hasCycle_exact (hg : g.Valid) {depth : ℕ} {cyclic : Bool}
    (h : hasCycle g depth = some (.ok cyclic)) : cyclic = true ↔ g.Cyclic := by
  obtain ⟨outcome, hsearch, hmap⟩ := Option.map_eq_some_iff.mp h
  cases outcome with
  | error e => cases hmap
  | ok r =>
    obtain ⟨found, s'⟩ := r
    obtain rfl : found = cyclic := Except.ok.inj hmap
    have hexact : Exact g (g.objects.map PossibilityObject.objectId) {}
        (visitAny (visitNew g depth) (g.objects.map PossibilityObject.objectId) {}) := by
      refine visitAny_exact (fun node _ s hs hsettled => ?_) {} rfl trivial
      unfold visitNew
      split
      · next hvisited =>
        intro found s' h
        cases h
        exact ⟨hsettled, rfl, List.Subset.refl _, List.cons_subset.mpr ⟨hvisited, List.nil_subset _⟩⟩
      · refine visit_exact hg (fun v hv => ?_) hsettled
        rw [hs] at hv
        cases hv
    have hfound := hexact found s' hsearch
    cases found with
    | true => exact iff_of_true rfl hfound
    | false =>
      obtain ⟨hsettled, -, -, hall⟩ := hfound
      refine iff_of_false Bool.false_ne_true ?_
      rintro ⟨id, hid, hcycle⟩
      exact not_transGen_of_acc (acc_of_settled hsettled id (hall hid)) hcycle

/-- On a valid graph the scan reports a cycle if and only if some object reaches itself along one
or more morphisms, and does so in whatever order the graph is listed. -/
theorem structuralScan_cyclic_iff (g : PossibilityGraph) (hg : g.Valid) (depth : ℕ)
    (hdepth : g.objects.length < depth) :
    (∃ cyclic, hasCycle g depth = some (.ok cyclic) ∧ (cyclic = true ↔ g.Cyclic)) ∧
      (∀ C signature, structuralScan g C depth = some (.ok signature) →
        (signature.cyclic = true ↔ g.Cyclic)) ∧
      ∀ listed : PossibilityGraph, listed.objects.Perm g.objects →
        listed.morphisms.Perm g.morphisms → hasCycle listed depth = hasCycle g depth := by
  obtain ⟨cyclic, hcyclic⟩ := hasCycle_returns hg hdepth
  refine ⟨⟨cyclic, hcyclic, hasCycle_exact hg hcyclic⟩, fun C signature h => ?_,
    fun listed hobjects hmorphisms => ?_⟩
  · rw [structuralScan, hcyclic] at h
    obtain ⟨_, hgraph, h⟩ := Fallible.bind_eq_ok.mp (Option.some.inj h)
    obtain ⟨_, hkey, h⟩ := Fallible.bind_eq_ok.mp h
    obtain ⟨_, _, h⟩ := Fallible.bind_eq_ok.mp h
    cases h
    cases hgraph
    exact hasCycle_exact hg hcyclic
  · have hlisted := hg.perm hobjects hmorphisms
    obtain ⟨found, hfound⟩ := hasCycle_returns hlisted (by rwa [hobjects.length_eq])
    have hiff := ((hasCycle_exact hlisted hfound).trans
      (PossibilityGraph.cyclic_congr hobjects hmorphisms)).trans (hasCycle_exact hg hcyclic).symm
    rw [hfound, hcyclic, Bool.eq_iff_iff.mpr hiff]

/-- A switch that is turned off and on again. -/
def switch : PossibilityGraph where
  objects := [{ objectId := "off", kind := .subject, semanticRef := "off" },
    { objectId := "on", kind := .subject, semanticRef := "on" }]
  morphisms := [{ morphismId := "press", sourceId := "off", targetId := "on", kind := .project,
                  phase := .construct, actuation := project_constructs },
    { morphismId := "release", sourceId := "on", targetId := "off", kind := .project,
                  phase := .construct, actuation := project_constructs }]

theorem structuralScan_cyclic_switch :
    hasCycle switch 3 = some (.ok true) ∧ switch.Cyclic := by
  have hvalid : switch.Valid := (PossibilityGraph.validateTopology_ok_iff switch).mp rfl
  obtain ⟨⟨cyclic, hcyclic, hiff⟩, -, -⟩ :=
    structuralScan_cyclic_iff switch hvalid 3 (by decide)
  have hpressed : hasCycle switch 3 = some (.ok true) := by decide +kernel
  rw [hpressed] at hcyclic
  cases hcyclic
  exact ⟨hpressed, hiff.mp rfl⟩

end StructuralScan

end GymAct
