import GymAct.PowlRounds
import Mathlib.Logic.Equiv.Basic

/-!
# Models up to renaming

A renaming of paths that gives every child a new index at its parent, and the paths below it a
renaming of their own (`branch`). `Renames` relates two models that differ by one; completion and
steps are the same at renamed positions (`Renames.complete_iff`, `Renames.fires`), so that the
two models have the same runs (`Renames.sameLanguage`).
-/

namespace GymAct.Powl

open Position

/-! ## Renamed paths and positions -/

/-- The first index is renamed, and the rest of the path by the renaming of that child. -/
def branch (σ : Equiv.Perm ℕ) (ρ : ℕ → Equiv.Perm NodePath) : Equiv.Perm NodePath where
  toFun
    | [] => []
    | i :: q => σ i :: ρ i q
  invFun
    | [] => []
    | j :: q => σ.symm j :: (ρ (σ.symm j)).symm q
  left_inv q := by cases q <;> simp
  right_inv q := by cases q <;> simp

/-- The position with its cells under their new paths. -/
def Position.rename (ρ : Equiv.Perm NodePath) (p : Position) : Position := fun q => p (ρ.symm q)

section Branch

variable {σ : Equiv.Perm ℕ} {ρ : ℕ → Equiv.Perm NodePath} {p : Position}

@[simp]
theorem branch_nil : branch σ ρ [] = [] := rfl

@[simp]
theorem branch_cons (i : ℕ) (q : NodePath) : branch σ ρ (i :: q) = σ i :: ρ i q := rfl

theorem branch_symm : (branch σ ρ).symm = branch σ.symm fun j => (ρ (σ.symm j)).symm := by
  ext q
  cases q <;> rfl

@[simp]
theorem rename_nil : rename (branch σ ρ) p [] = p [] := rfl

theorem child_rename (j : ℕ) :
    (rename (branch σ ρ) p).child j = rename (ρ (σ.symm j)) (p.child (σ.symm j)) := rfl

@[simp]
theorem child_rename_apply (i : ℕ) :
    (rename (branch σ ρ) p).child (σ i) = rename (ρ i) (p.child i) := by
  rw [child_rename, Equiv.symm_apply_apply]

theorem rename_graft (i : ℕ) (q : Position) : rename (branch σ ρ) (p.graft i q) =
    (rename (branch σ ρ) p).graft (σ i) (rename (ρ i) q) := by
  refine Trie.ext_children rfl fun j => ?_
  obtain ⟨k, rfl⟩ := σ.surjective j
  rw [child_rename_apply, Trie.child_graft, Trie.child_graft]
  by_cases hk : k = i
  · subst hk
    rw [if_pos rfl, if_pos rfl]
  · rw [if_neg hk, if_neg (σ.injective.ne hk), child_rename_apply]

theorem rename_relabel (c : Cell) :
    rename (branch σ ρ) (p.relabel c) = (rename (branch σ ρ) p).relabel c := by
  funext q
  cases q <;> rfl

theorem rename_clear (ρ : Equiv.Perm NodePath) (p : Position) :
    rename ρ (clear p) = clear (rename ρ p) := rfl

theorem rename_banked : rename (branch σ ρ) (banked p) = banked (rename (branch σ ρ) p) := by
  rw [banked, banked, rename_relabel, rename_clear, rename_nil]

theorem touched_rename_iff (ρ : Equiv.Perm NodePath) : Touched (rename ρ p) ↔ Touched p := by
  constructor
  · rintro ⟨q, hq⟩
    exact ⟨ρ.symm q, hq⟩
  · rintro ⟨q, hq⟩
    refine ⟨ρ q, ?_⟩
    simpa [Position.rename] using hq

theorem inProgress_rename_iff : InProgress (rename (branch σ ρ) p) ↔ InProgress p := by
  refine or_congr Iff.rfl ⟨?_, ?_⟩
  · rintro ⟨j, hj⟩
    rw [child_rename, touched_rename_iff] at hj
    exact ⟨_, hj⟩
  · rintro ⟨i, hi⟩
    refine ⟨σ i, ?_⟩
    rwa [child_rename_apply, touched_rename_iff]

theorem rename_initial (ρ : Equiv.Perm NodePath) :
    rename ρ initialMarking.position = initialMarking.position := by
  funext q
  simp [Position.rename, initialMarking, Marking.roundsAt]

end Branch

/-! ## Renamed models -/

/-- The second model is the first with its paths renamed. -/
inductive Renames : PowlNode → PowlNode → Equiv.Perm NodePath → Prop
  | leaf {node : PowlNode} (hleaf : node.isLeaf = true) : Renames node node (Equiv.refl _)
  | partialOrder {n : ℕ} {children children' : Fin n → PowlNode} {body body' : OrderBody}
    {σ : Equiv.Perm ℕ} {ρ : ℕ → Equiv.Perm NodePath} (hσ : ∀ i, σ i < n ↔ i < n)
    (hfrequency : body'.frequency = body.frequency)
    (hclosure : ∀ i j, ⟨σ i, σ j⟩ ∈ body'.closure ↔ ⟨i, j⟩ ∈ body.closure)
    (hchildren : ∀ i : Fin n, Renames (children i) (children' ⟨σ i, (hσ i).mpr i.isLt⟩) (ρ i)) :
    Renames (.partialOrder n children body) (.partialOrder n children' body') (branch σ ρ)
  | choiceGraph {n : ℕ} {children children' : Fin n → PowlNode} {body : ChoiceBody}
    {ρ : ℕ → Equiv.Perm NodePath} (hchildren : ∀ i : Fin n, Renames (children i) (children' i) (ρ i)) :
    Renames (.choiceGraph n children body) (.choiceGraph n children' body)
      (branch (Equiv.refl ℕ) ρ)

namespace Renames

variable {node node' : PowlNode} {ρ : Equiv.Perm NodePath} {p q : Position} {path : NodePath}
  {cap : Option ℤ}

theorem symm (h : Renames node node' ρ) : Renames node' node ρ.symm := by
  induction h with
  | leaf hleaf => exact .leaf hleaf
  | @partialOrder n children children' body body' σ ρ hσ hfrequency hclosure _ ih =>
    rw [branch_symm]
    have hσ' : ∀ j, σ.symm j < n ↔ j < n := fun j => by rw [← hσ, Equiv.apply_symm_apply]
    refine .partialOrder hσ' hfrequency.symm (fun i j => ?_) fun j => ?_
    · rw [← hclosure, Equiv.apply_symm_apply, Equiv.apply_symm_apply]
    · have hj := ih ⟨σ.symm j, (hσ' j).mpr j.isLt⟩
      simpa only [Equiv.apply_symm_apply, Fin.eta] using hj
  | choiceGraph _ ih =>
    rw [branch_symm]
    exact .choiceGraph ih

section Children

variable {n : ℕ} {children children' : Fin n → PowlNode} {σ : Equiv.Perm ℕ}
  {ρ : ℕ → Equiv.Perm NodePath}

theorem childComplete_iff (hσ : ∀ i, σ i < n ↔ i < n)
    (h : ∀ (i : Fin n) (p : Position),
      Complete (children' ⟨σ i, (hσ i).mpr i.isLt⟩) (rename (ρ i) p) ↔ Complete (children i) p)
    (p : Position) (i : ℕ) :
    ChildComplete children' (rename (branch σ ρ) p) (σ i) ↔ ChildComplete children p i := by
  rw [ChildComplete, ChildComplete, child_rename_apply]
  constructor
  · rintro ⟨hlt, hcomplete⟩
    exact ⟨(hσ i).mp hlt, (h ⟨i, (hσ i).mp hlt⟩ _).mp hcomplete⟩
  · rintro ⟨hlt, hcomplete⟩
    exact ⟨(hσ i).mpr hlt, (h ⟨i, hlt⟩ _).mpr hcomplete⟩

theorem forall_complete_iff (hσ : ∀ i, σ i < n ↔ i < n)
    (h : ∀ (i : Fin n) (p : Position),
      Complete (children' ⟨σ i, (hσ i).mpr i.isLt⟩) (rename (ρ i) p) ↔ Complete (children i) p)
    (p : Position) : (∀ j : Fin n, Complete (children' j) ((rename (branch σ ρ) p).child j)) ↔
      ∀ i : Fin n, Complete (children i) (p.child i) := by
  have hchild := childComplete_iff hσ h p
  constructor
  · intro hall i
    obtain ⟨_, hcomplete⟩ := (hchild i).mp ⟨(hσ i).mpr i.isLt, hall _⟩
    exact hcomplete
  · intro hall j
    obtain ⟨i, hi⟩ := σ.surjective j
    have hlt : i < n := by rw [← hσ, hi]; exact j.isLt
    obtain ⟨_, hcomplete⟩ := (hchild i).mpr ⟨hlt, hall ⟨i, hlt⟩⟩
    simpa only [hi] using hcomplete

end Children

theorem complete_iff (h : Renames node node' ρ) : Complete node' (rename ρ p) ↔ Complete node p := by
  induction h generalizing p with
  | leaf hleaf => exact Iff.rfl
  | @partialOrder n children children' body body' σ ρ hσ hfrequency _ _ ih =>
    rw [Complete, Complete, hfrequency]
    exact or_congr (and_congr Iff.rfl (not_congr inProgress_rename_iff))
      (and_congr Iff.rfl (forall_complete_iff hσ (fun i p => @ih i p) p))
  | @choiceGraph n children children' body ρ _ ih =>
    have hend := childComplete_iff (σ := Equiv.refl ℕ) (fun _ => Iff.rfl) (fun i p => @ih i p) p
      body.endIdx
    exact or_congr (and_congr Iff.rfl (not_congr inProgress_rename_iff))
      (and_congr Iff.rfl (and_congr Iff.rfl hend))

theorem roundOpen_rename {frequency : Frequency} {σ : Equiv.Perm ℕ} {ρ : ℕ → Equiv.Perm NodePath}
    (h : RoundOpen cap frequency p) : RoundOpen cap frequency (rename (branch σ ρ) p) :=
  ⟨h.lt_max, fun hpos hidle => h.under hpos (mt inProgress_rename_iff.mpr hidle)⟩

/-- A composite banks a round where its renamed one does. -/
theorem close_rename (h : Renames node node' ρ) (hleaf : node.isLeaf = false) :
    close node' (rename ρ p) = rename ρ (close node p) := by
  have hbody : (BodyComplete node' (rename ρ p) ↔ BodyComplete node p) ∧
      banked (rename ρ p) = rename ρ (banked p) := by
    cases h with
    | leaf h => exact absurd (h.symm.trans hleaf) nofun
    | @partialOrder n children children' body body' σ ρ hσ _ _ hchildren =>
      refine ⟨forall_complete_iff hσ (fun i _ => (hchildren i).complete_iff) p, ?_⟩
      exact rename_banked.symm
    | @choiceGraph n children children' body ρ hchildren =>
      refine ⟨and_congr Iff.rfl (childComplete_iff (σ := Equiv.refl ℕ) (fun _ => Iff.rfl)
        (fun i _ => (hchildren i).complete_iff) p body.endIdx), ?_⟩
      exact rename_banked.symm
  unfold close
  by_cases hcomplete : BodyComplete node p
  · rw [if_pos hcomplete, if_pos (hbody.1.mpr hcomplete), hbody.2]
  · rw [if_neg hcomplete, if_neg (mt hbody.1.mp hcomplete)]

/-- A step of a node is a step of the renamed one. -/
theorem fires (h : Renames node node' ρ) (hfires : Fires cap node p path q) :
    Fires cap node' (rename ρ p) (ρ path) (rename ρ q) := by
  induction h generalizing p q path with
  | leaf hleaf => exact hfires
  | @partialOrder n children children' body body' σ ρ hσ hfrequency hclosure hchildren ih =>
    obtain ⟨i, path, q', rfl, hopen, hi, hpred, hstep, rfl⟩ := fires_partialOrder_iff.mp hfires
    have hrename := Renames.partialOrder hσ hfrequency hclosure hchildren
    rw [← hrename.close_rename rfl, rename_graft]
    refine .branch ⟨σ i, (hσ i).mpr i.isLt⟩ ?_ ?_ ?_ ?_
    · rw [hfrequency]
      exact roundOpen_rename hopen
    · rwa [child_rename_apply, (hchildren i).complete_iff]
    · rintro ⟨src, dst⟩ he hdst
      obtain ⟨j, rfl⟩ := σ.surjective src
      obtain rfl : dst = σ i := hdst
      exact (childComplete_iff hσ (fun i _ => (hchildren i).complete_iff) p j).mpr
        (hpred _ ((hclosure _ _).mp he) rfl)
    · rw [child_rename_apply]
      exact ih i hstep
  | @choiceGraph n children children' body ρ hchildren ih =>
    obtain ⟨i, path, rfl, hopen, hcases⟩ := fires_choiceGraph_iff.mp hfires
    have hrename : Renames (.choiceGraph n children body) (.choiceGraph n children' body) _ :=
      .choiceGraph hchildren
    have hchild := childComplete_iff (σ := Equiv.refl ℕ) (fun _ => Iff.rfl)
      (fun i _ => (hchildren i).complete_iff) p
    rcases hcases with ⟨q', hcursor, hi, hstep, rfl⟩ | ⟨q', hcandidate, hunder, hstep, rfl⟩
    · rw [← hrename.close_rename rfl, rename_graft]
      refine .inside i (roundOpen_rename hopen) hcursor ?_ (ih i hstep)
      exact mt ((hchildren i).complete_iff (p := p.child i)).mp hi
    · have hcandidate' : Candidate children' body (rename (branch (Equiv.refl ℕ) ρ) p) i := by
        unfold Candidate at hcandidate ⊢
        rw [rename_nil]
        split
        · next h => simpa only [h] using hcandidate
        · next cur h =>
          simp only [h] at hcandidate
          exact ⟨(hchild cur).mpr hcandidate.1, hcandidate.2⟩
      rw [← hrename.close_rename rfl, select, rename_relabel, rename_graft]
      exact .enter i (roundOpen_rename hopen) hcandidate' hunder (ih i hstep)

theorem root (h : Renames node node' ρ) : ρ [] = [] := by
  cases h <;> rfl

/-- A child is a renamed child. -/
theorem exists_child (h : Renames node node' ρ) {i : ℕ} {child : PowlNode}
    (hchild : node.child? i = some child) : ∃ j child' ρ', node'.child? j = some child' ∧
      Renames child child' ρ' ∧ ∀ q, ρ (i :: q) = j :: ρ' q := by
  cases h with
  | leaf hleaf => simp [PowlNode.child?_of_isLeaf hleaf] at hchild
  | @partialOrder n children children' body body' σ ρ hσ _ _ hchildren =>
    simp only [PowlNode.child?_partialOrder, Option.dite_none_right_eq_some, Option.some.injEq]
      at hchild
    obtain ⟨hi, rfl⟩ := hchild
    have hlt : σ i < n := (hσ i).mpr hi
    exact ⟨σ i, _, ρ i, by simp [hlt], hchildren ⟨i, hi⟩, fun _ => rfl⟩
  | @choiceGraph n children children' body ρ hchildren =>
    simp only [PowlNode.child?_choiceGraph, Option.dite_none_right_eq_some, Option.some.injEq]
      at hchild
    obtain ⟨hi, rfl⟩ := hchild
    exact ⟨i, _, ρ i, by simp [hi], hchildren ⟨i, hi⟩, fun _ => rfl⟩

/-- Leaves are found again under their renamed paths. -/
theorem leaf_at {leaf : PowlNode} (hleaf : leaf.isLeaf = true) :
    ∀ {path : NodePath} {node node' : PowlNode} {ρ : Equiv.Perm NodePath}, Renames node node' ρ →
      nodeAt node path = some leaf → nodeAt node' (ρ path) = some leaf
  | [], _, _, _, h, hpath => by
    obtain rfl := Option.some.inj hpath
    cases h with
    | leaf => exact hpath
    | partialOrder | choiceGraph => exact absurd hleaf nofun
  | i :: path, _, _, _, h, hpath => by
    obtain ⟨child, hchild, hsub⟩ := Option.bind_eq_some_iff.mp hpath
    obtain ⟨j, child', ρ', hchild', h', hρ⟩ := h.exists_child hchild
    rw [hρ, nodeAt, hchild']
    exact leaf_at hleaf h' hsub

/-- A child stays a child of the same node. -/
theorem child_of {i : ℕ} {sub : PowlNode} :
    ∀ {path : NodePath} {node node' : PowlNode} {ρ : Equiv.Perm NodePath}, Renames node node' ρ →
      nodeAt node (path ++ [i]) = some sub → ∃ j, ρ (path ++ [i]) = ρ path ++ [j]
  | [], _, _, _, h, hpath => by
    obtain ⟨child, hchild, -⟩ := Option.bind_eq_some_iff.mp hpath
    obtain ⟨j, _, ρ', -, h', hρ⟩ := h.exists_child hchild
    exact ⟨j, by rw [List.nil_append, hρ, h'.root, h.root, List.nil_append]⟩
  | k :: path, _, _, _, h, hpath => by
    obtain ⟨child, hchild, hsub⟩ := Option.bind_eq_some_iff.mp hpath
    obtain ⟨j, _, ρ', -, h', hρ⟩ := h.exists_child hchild
    obtain ⟨l, hl⟩ := child_of h' hsub
    exact ⟨l, by rw [List.cons_append, hρ, hl, hρ, List.cons_append]⟩

theorem steps (h : Renames node node' ρ) : ∀ {word : List NodePath} {p q : Position},
    Steps cap node p word q → Steps cap node' (rename ρ p) (word.map ρ) (rename ρ q)
  | [], _, _, hsteps => congrArg (rename ρ) hsteps
  | _ :: _, _, _, ⟨_, hfires, hsteps⟩ => ⟨_, h.fires hfires, h.steps hsteps⟩

end Renames

/-! ## Languages -/

/-- The paths that some complete run of a model fires, one after another. -/
def HasWord (K : PowlCanon) (model : PowlNode) (word : List NodePath) : Prop :=
  ∃ bound calls m, FireRun K model bound calls m ∧ calls.map Prod.fst = word ∧
    isFinal model m = true

/-- The same leaves under renamed paths, and the same complete runs. -/
structure SameLanguage (K : PowlCanon) (model model' : PowlNode) (ρ : Equiv.Perm NodePath) :
    Prop where
  root : ρ [] = []
  child_of : ∀ path i sub, nodeAt model (path ++ [i]) = some sub →
    ∃ j, ρ (path ++ [i]) = ρ path ++ [j]
  leaves : ∀ path leaf, leaf.isLeaf = true →
    (nodeAt model' (ρ path) = some leaf ↔ nodeAt model path = some leaf)
  words : ∀ word, HasWord K model' (word.map ρ) ↔ HasWord K model word

theorem HasWord.rename {K : PowlCanon} {model model' : PowlNode} {ρ : Equiv.Perm NodePath}
    (h : Renames model model' ρ) {word : List NodePath} (hword : HasWord K model word) :
    HasWord K model' (word.map ρ) := by
  obtain ⟨bound, calls, m, hrun, rfl, hfinal⟩ := hword
  have hsteps := h.steps (steps_of_fireAll (fireRun_iff.mp hrun))
  rw [rename_initial] at hsteps
  set word := (calls.map Prod.fst).map ρ
  -- the other bounds make room for the run
  let bound' : ExecutionBound := ⟨word.length, bound.maxNodeVisits, word.length⟩
  obtain ⟨m', hrun', hposition⟩ := @Steps.exists_run model' bound' _ _ K hsteps le_rfl le_rfl
  refine ⟨bound', _, m', hrun', by simp [List.map_map, Function.comp_def], ?_⟩
  rw [isFinal_iff, hposition, h.complete_iff, ← isFinal_iff]
  exact hfinal

theorem Renames.sameLanguage (K : PowlCanon) {model model' : PowlNode} {ρ : Equiv.Perm NodePath}
    (h : Renames model model' ρ) : SameLanguage K model model' ρ where
  root := h.root
  child_of := fun _ _ _ => h.child_of
  leaves := fun path leaf hleaf =>
    ⟨fun hpath => by simpa using Renames.leaf_at hleaf h.symm hpath, Renames.leaf_at hleaf h⟩
  words := fun word =>
    ⟨fun hword => by simpa [Function.comp_def] using hword.rename h.symm, HasWord.rename h⟩

end GymAct.Powl
