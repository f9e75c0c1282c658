import GymAct.PowlExecutor
import GymAct.Trie

/-!
# One step of a model

The executor's marking is a flat table of paths. `Position` is the same information as a trie
of `Cell`s, so that a node sees its part of the marking and nothing else : `Complete` and
`Fires` are the completion and the step of one node at its own position, a step of a
composite being a step of one child.

`fires_of_fire` and `mem_enabled_iff` : `fire` and `enabled` are this step at the root.
-/

namespace GymAct.Powl

open Fallible (bind_eq_ok)

/-- What a marking holds at one path. -/
@[ext]
structure Cell where
  done : Prop
  cursor : Option ℕ
  rounds : ℕ
  visits : ℤ → ℕ

/-- `_purged`, at one path. -/
def Cell.clear (c : Cell) : Cell := { c with done := False, cursor := none, rounds := 0 }

/-- One more visit of a child. -/
def Cell.visit (c : Cell) (child : ℤ) : Cell :=
  { c with visits := fun j => c.visits j + if j = child then 1 else 0 }

/-- What a marking holds at a node and below it. -/
abbrev Position := Trie ℕ Cell

/-- The position of the root. -/
def Marking.position (m : Marking) : Position := fun p =>
  ⟨p ∈ m.completedPaths, m.cursor.get? p, m.roundsAt p, m.visits p⟩

namespace Position

variable (p : Position)

/-- Nothing is done, entered or counted; visits are kept. -/
def clear : Position := fun q => (p q).clear

/-- Something is done, entered or counted. -/
def Touched : Prop := ∃ q, (p q).done ∨ (p q).cursor ≠ none ∨ 0 < (p q).rounds

/-- `_in_progress`. -/
def InProgress : Prop := (p []).cursor ≠ none ∨ ∃ i, Touched (p.child i)

/-- A leaf is done. -/
def mark : Position := p.relabel { p [] with done := True }

/-- A choice graph is inside a child, which is visited once more. -/
def select (i : ℕ) : Position := p.relabel ({ p [] with cursor := some i }.visit i)

/-- A round is counted and the next one starts afresh. -/
def banked : Position :=
  p.clear.relabel ({ (p []).clear with rounds := (p []).rounds + 1 }.visit (-1))

end Position

open Position

/-! ## Completion and steps of a node -/

/-- `_is_complete`. -/
def Complete : PowlNode → Position → Prop
  | .partialOrder n children body, p =>
    (body.frequency.allows (p []).rounds = true ∧ ¬InProgress p) ∨
      (body.frequency.allows ((p []).rounds + 1) = true ∧
        ∀ i : Fin n, Complete (children i) (p.child i))
  | .choiceGraph n children body, p =>
    (body.frequency.allows (p []).rounds = true ∧ ¬InProgress p) ∨
      (body.frequency.allows ((p []).rounds + 1) = true ∧ (p []).cursor = some body.endIdx ∧
        ∃ h : body.endIdx < n, Complete (children ⟨body.endIdx, h⟩) (p.child body.endIdx))
  | _, p => (p []).done

/-- The completion of a child by its index. -/
def ChildComplete {n : ℕ} (children : Fin n → PowlNode) (p : Position) (i : ℕ) : Prop :=
  ∃ h : i < n, Complete (children ⟨i, h⟩) (p.child i)

/-- `_body_complete`. -/
def BodyComplete : PowlNode → Position → Prop
  | .partialOrder n children _, p => ∀ i : Fin n, Complete (children i) (p.child i)
  | .choiceGraph _ children body, p =>
    (p []).cursor = some body.endIdx ∧ ChildComplete children p body.endIdx
  | _, _ => False

/-- A count is under the cap, if there is one. -/
def Under (cap : Option ℤ) (count : ℕ) : Prop := ∀ c ∈ cap, (count : ℤ) < c

/-- A round may go on, or another one start. -/
structure RoundOpen (cap : Option ℤ) (frequency : Frequency) (p : Position) : Prop where
  lt_max : ∀ max ∈ frequency.max, (p []).rounds < max
  under : 0 < (p []).rounds → ¬InProgress p → Under cap ((p []).visits (-1))

/-- The children a choice graph may enter. -/
def Candidate {n : ℕ} (children : Fin n → PowlNode) (body : ChoiceBody) (p : Position) (i : ℕ) :
    Prop :=
  match (p []).cursor with
  | none => i = body.startIdx
  | some cur => ChildComplete children p cur ∧ cur ≠ body.endIdx ∧ i ∈ body.succ cur

open Classical in
/-- A round is banked as soon as the body is complete. -/
noncomputable def close (node : PowlNode) (p : Position) : Position :=
  if BodyComplete node p then p.banked else p

/-- The leaf under a path advances, at a visit cap or at none. -/
inductive Fires (cap : Option ℤ) : PowlNode → Position → NodePath → Position → Prop
  | leaf {node : PowlNode} {p : Position} (hleaf : node.isLeaf = true) (hdone : ¬(p []).done) :
    Fires cap node p [] p.mark
  | branch {n : ℕ} {children : Fin n → PowlNode} {body : OrderBody} {p q : Position}
    {path : NodePath} (i : Fin n) (hopen : RoundOpen cap body.frequency p)
    (hi : ¬Complete (children i) (p.child i))
    (hpred : ∀ e ∈ body.closure, e.dst = i → ChildComplete children p e.src)
    (h : Fires cap (children i) (p.child i) path q) :
    Fires cap (.partialOrder n children body) p (i :: path)
      (close (.partialOrder n children body) (p.graft i q))
  | inside {n : ℕ} {children : Fin n → PowlNode} {body : ChoiceBody} {p q : Position}
    {path : NodePath} (i : Fin n) (hopen : RoundOpen cap body.frequency p)
    (hcursor : (p []).cursor = some i.val) (hi : ¬Complete (children i) (p.child i))
    (h : Fires cap (children i) (p.child i) path q) :
    Fires cap (.choiceGraph n children body) p (i :: path)
      (close (.choiceGraph n children body) (p.graft i q))
  | enter {n : ℕ} {children : Fin n → PowlNode} {body : ChoiceBody} {p q : Position}
    {path : NodePath} (i : Fin n) (hopen : RoundOpen cap body.frequency p)
    (hcandidate : Candidate children body p i) (hunder : Under cap ((p []).visits i))
    (h : Fires cap (children i) (clear (p.child i)) path q) :
    Fires cap (.choiceGraph n children body) p (i :: path)
      (close (.choiceGraph n children body) (select (p.graft i q) i))

/-! ## Inversion -/

theorem fires_of_isLeaf_iff {cap : Option ℤ} {node : PowlNode} (hleaf : node.isLeaf = true)
    {p q : Position} {r : NodePath} :
    Fires cap node p r q ↔ r = [] ∧ ¬(p []).done ∧ q = p.mark := by
  constructor
  · rintro (⟨_, hdone⟩ | _ | _ | _)
    · exact ⟨rfl, hdone, rfl⟩
    all_goals simp at hleaf
  · rintro ⟨rfl, hdone, rfl⟩
    exact .leaf hleaf hdone

theorem fires_partialOrder_iff {cap : Option ℤ} {n : ℕ} {children : Fin n → PowlNode}
    {body : OrderBody} {p q : Position} {r : NodePath} :
    Fires cap (.partialOrder n children body) p r q ↔
      ∃ (i : Fin n) (path : NodePath) (q' : Position), r = i.val :: path ∧
        RoundOpen cap body.frequency p ∧ ¬Complete (children i) (p.child i) ∧
        (∀ e ∈ body.closure, e.dst = i → ChildComplete children p e.src) ∧
        Fires cap (children i) (p.child i) path q' ∧
        q = close (.partialOrder n children body) (p.graft i q') := by
  constructor
  · rintro (⟨hleaf, _⟩ | ⟨i, hopen, hi, hpred, h⟩ | _ | _)
    · simp at hleaf
    · exact ⟨i, _, _, rfl, hopen, hi, hpred, h, rfl⟩
  · rintro ⟨i, path, q', rfl, hopen, hi, hpred, h, rfl⟩
    exact .branch i hopen hi hpred h

theorem fires_choiceGraph_iff {cap : Option ℤ} {n : ℕ} {children : Fin n → PowlNode}
    {body : ChoiceBody} {p q : Position} {r : NodePath} :
    Fires cap (.choiceGraph n children body) p r q ↔
      ∃ (i : Fin n) (path : NodePath), r = i.val :: path ∧ RoundOpen cap body.frequency p ∧
        ((∃ q', (p []).cursor = some i.val ∧ ¬Complete (children i) (p.child i) ∧
            Fires cap (children i) (p.child i) path q' ∧
            q = close (.choiceGraph n children body) (p.graft i q')) ∨
          ∃ q', Candidate children body p i ∧ Under cap ((p []).visits i) ∧
            Fires cap (children i) (clear (p.child i)) path q' ∧
            q = close (.choiceGraph n children body) (select (p.graft i q') i)) := by
  constructor
  · rintro (⟨hleaf, _⟩ | _ | ⟨i, hopen, hcursor, hi, h⟩ | ⟨i, hopen, hcandidate, hunder, h⟩)
    · simp at hleaf
    · exact ⟨i, _, rfl, hopen, Or.inl ⟨_, hcursor, hi, h, rfl⟩⟩
    · exact ⟨i, _, rfl, hopen, Or.inr ⟨_, hcandidate, hunder, h, rfl⟩⟩
  · rintro ⟨i, path, rfl, hopen, ⟨q', hcursor, hi, h, rfl⟩ | ⟨q', hcandidate, hunder, h, rfl⟩⟩
    · exact .inside i hopen hcursor hi h
    · exact .enter i hopen hcandidate hunder h

/-! ## The step as a function -/

open Classical in
/-- The parent's part of a step into a child. -/
noncomputable def enterChild (node : PowlNode) (i : ℕ) (p : Position) : Position :=
  match node with
  | .choiceGraph _ children _ =>
    if (p []).cursor ≠ some i ∨ ChildComplete children p i then
      select (p.graft i (clear (p.child i))) i
    else p
  | _ => p

/-- What firing the leaf under a path does to a position. -/
noncomputable def stepAt : PowlNode → NodePath → Position → Position
  | _, [], p => p.mark
  | node, i :: path, p =>
    match node.child? i with
    | none => p
    | some child =>
      let p' := enterChild node i p
      close node (p'.graft i (stepAt child path (p'.child i)))

@[simp]
theorem child_select (p : Position) (i j : ℕ) : (select p i).child j = p.child j := rfl

@[simp]
theorem graft_select (p q : Position) (i : ℕ) :
    (select p i).graft i q = select (p.graft i q) i := by
  rw [select, select, Trie.graft_relabel]
  rfl

theorem not_inProgress_banked (p : Position) : ¬InProgress (banked p) := by
  rintro (h | ⟨i, r, h | h | h⟩)
  · exact h rfl
  · exact h
  · exact h rfl
  · exact lt_irrefl 0 h

/-- A property of the children survives a step of one of them. -/
theorem forall_child_graft {n : ℕ} {p q : Position} {i : Fin n} {P : Fin n → Position → Prop}
    (hp : ∀ j : Fin n, P j (p.child j)) (hq : P i q) (j : Fin n) :
    P j ((p.graft i.val q).child j) := by
  by_cases hj : j = i
  · subst hj
    rwa [Trie.child_graft_self]
  · rw [Trie.child_graft_of_ne p q (Fin.val_ne_of_ne hj)]
    exact hp j

theorem enterChild_of_inside {n : ℕ} {children : Fin n → PowlNode} {body : ChoiceBody}
    {p : Position} {i : Fin n} (hcursor : (p []).cursor = some i.val)
    (hi : ¬Complete (children i) (p.child i)) :
    enterChild (.choiceGraph n children body) i p = p := by
  have hchild : ¬ChildComplete children p i := fun ⟨_, h⟩ => hi h
  simp [enterChild, hcursor, hchild]

theorem enterChild_of_candidate {n : ℕ} {children : Fin n → PowlNode} {body : ChoiceBody}
    {p : Position} {i : ℕ} (h : Candidate children body p i) :
    enterChild (.choiceGraph n children body) i p = select (p.graft i (clear (p.child i))) i := by
  refine if_pos ?_
  by_cases hcursor : (p []).cursor = some i
  · simp only [Candidate, hcursor] at h
    exact Or.inr h.1
  · exact Or.inl hcursor

/-- A step has one outcome. -/
theorem Fires.eq_stepAt {cap : Option ℤ} {node : PowlNode} {p q : Position} {path : NodePath}
    (h : Fires cap node p path q) : q = stepAt node path p := by
  induction h with
  | leaf => rfl
  | branch i _ _ _ _ ih => simp [stepAt, enterChild, ih]
  | inside i _ hcursor hi _ ih => simp [stepAt, enterChild_of_inside hcursor hi, ih]
  | enter i _ hcandidate _ _ ih => simp [stepAt, enterChild_of_candidate hcandidate, ih]

/-! ## The executor's functions at a position -/

namespace Marking

variable (m : Marking)

@[simp]
theorem position_apply (p : NodePath) :
    m.position p = ⟨p ∈ m.completedPaths, m.cursor.get? p, m.roundsAt p, m.visits p⟩ := rfl

theorem inProgress_iff (path : NodePath) :
    m.inProgress path = true ↔ InProgress (m.position.sub path) := by
  simp only [inProgress, InProgress, Touched, Bool.or_eq_true, decide_eq_true_eq]
  constructor
  · rintro ((⟨p, hp, hlen, ⟨q, rfl⟩⟩ | ⟨p, hp, ⟨q, rfl⟩⟩) | ⟨p, hp, hlen, ⟨q, rfl⟩, hpos⟩)
    · cases q with
      | nil => simp at hlen
      | cons i q => exact Or.inr ⟨i, q, Or.inl (by simpa using hp)⟩
    · cases q with
      | nil => exact Or.inl (by simpa using hp)
      | cons i q => exact Or.inr ⟨i, q, Or.inr (Or.inl (by simpa using hp))⟩
    · cases q with
      | nil => simp at hlen
      | cons i q => exact Or.inr ⟨i, q, Or.inr (Or.inr (by simpa using hpos))⟩
  · rintro (h | ⟨i, q, h | h | h⟩)
    · exact Or.inl (Or.inr ⟨path, by simpa using h, List.prefix_refl path⟩)
    · exact Or.inl (Or.inl ⟨path ++ i :: q, by simpa using h, by simp, List.prefix_append _ _⟩)
    · exact Or.inl (Or.inr ⟨path ++ i :: q, by simpa using h, List.prefix_append _ _⟩)
    · have hrounds : 0 < m.roundsAt (path ++ i :: q) := by simpa using h
      refine Or.inr ⟨path ++ i :: q, ?_, by simp, List.prefix_append _ _, hrounds⟩
      rw [PathMap.mem_keys_iff]
      intro hnone
      simp [roundsAt, hnone] at hrounds

/-- `purged` clears the position under a path. -/
theorem position_purged (root : NodePath) :
    (m.purged root).position = Trie.modify clear root m.position := by
  funext q
  rw [Trie.modify_apply]
  by_cases hq : root <+: q
  · obtain ⟨q, rfl⟩ := hq
    simp [purged, roundsAt, clear, Cell.clear]
  · simp [purged, roundsAt, hq]

theorem position_select (path : NodePath) (i : ℕ) : (m.select path i).position =
    Trie.modify (fun p => Position.select (p.graft i (clear (p.child i))) i) path m.position := by
  funext q
  rw [Trie.modify_apply]
  by_cases hq : path <+: q
  · obtain ⟨t, rfl⟩ := hq
    cases t with
    | nil =>
      have hlong : ¬path ++ [i] <+: path := fun h => by
        have hlen := h.length_le
        rw [List.length_append, List.length_singleton] at hlen
        omega
      simp [Marking.select, visit, purged, roundsAt, Position.select, Cell.visit, hlong]
    | cons j t =>
      by_cases hj : j = i
      · subst hj
        simp [Marking.select, visit, purged, roundsAt, Position.select, Trie.relabel, Trie.graft,
          clear, Cell.clear]
      · have hij : i ≠ j := fun h => hj h.symm
        simp [Marking.select, visit, purged, roundsAt, Position.select, Trie.relabel, Trie.graft, hj,
          hij]
  · have hne : q ≠ path := fun h => hq (h ▸ List.prefix_refl _)
    have hne' : ¬path ++ [i] <+: q := fun h => hq ((List.prefix_append _ _).trans h)
    simp [Marking.select, visit, purged, roundsAt, hq, hne, hne']

theorem position_bank (path : NodePath) :
    (m.bank path).position = Trie.modify banked path m.position := by
  funext q
  rw [Trie.modify_apply]
  by_cases hq : path <+: q
  · obtain ⟨t, rfl⟩ := hq
    cases t with
    | nil => simp [bank, visit, purged, roundsAt, banked, Cell.visit, Cell.clear]
    | cons i t => simp [bank, visit, purged, roundsAt, banked, clear, Cell.clear, Trie.relabel]
  · have hne : q ≠ path := fun h => hq (h ▸ List.prefix_refl _)
    simp [bank, visit, purged, roundsAt, hq, hne]

end Marking

theorem isComplete_of_isLeaf : ∀ {node : PowlNode} (_ : node.isLeaf = true) (path : NodePath)
    (m : Marking), isComplete node path m = decide (path ∈ m.completedPaths)
  | .start, _, _, _ | .finish, _, _, _ | .silent, _, _, _ | .atom _, _, _, _ => rfl

theorem complete_of_isLeaf : ∀ {node : PowlNode} (_ : node.isLeaf = true) (p : Position),
    Complete node p ↔ (p []).done
  | .start, _, _ | .finish, _, _ | .silent, _, _ | .atom _, _, _ => Iff.rfl

theorem isComplete_iff : ∀ (node : PowlNode) (path : NodePath) (m : Marking),
    isComplete node path m = true ↔ Complete node (m.position.sub path)
  | .start, path, m | .finish, path, m | .silent, path, m | .atom _, path, m => by
    simp [isComplete, Complete]
  | .partialOrder n children body, path, m => by
    have hchildren : ∀ i : Fin n, isComplete (children i) (path ++ [i.val]) m = true ↔
        Complete (children i) ((m.position.sub path).child i) := fun i => by
      rw [isComplete_iff (children i), Trie.child_sub]
    simp [isComplete, Complete, ← m.inProgress_iff, hchildren]
  | .choiceGraph n children body, path, m => by
    have hchildren : ∀ i : Fin n, isComplete (children i) (path ++ [i.val]) m = true ↔
        Complete (children i) ((m.position.sub path).child i) := fun i => by
      rw [isComplete_iff (children i), Trie.child_sub]
    simp only [isComplete, Complete, Bool.or_eq_true, Bool.and_eq_true, Bool.not_eq_true',
      ← m.inProgress_iff, Trie.sub_apply, List.append_nil, Marking.position_apply,
      Bool.not_eq_true]
    refine or_congr_right (and_congr_right fun _ => ?_)
    cases hcursor : m.cursor.get? path with
    | none => simp
    | some cur =>
      by_cases hcur : cur = body.endIdx
      · subst hcur
        by_cases hlt : body.endIdx < n
        · simpa [hlt] using hchildren ⟨body.endIdx, hlt⟩
        · simp [hlt]
      · simp [hcur]

theorem childComplete_iff {n : ℕ} (children : Fin n → PowlNode) (path : NodePath) (m : Marking)
    (i : ℕ) : childComplete children path m i = true ↔
      ChildComplete children (m.position.sub path) i := by
  unfold childComplete ChildComplete
  split
  · next h => simp [isComplete_iff, h]
  · next h => simp [h]

theorem bodyComplete_iff (node : PowlNode) (path : NodePath) (m : Marking) :
    bodyComplete node path m = true ↔ BodyComplete node (m.position.sub path) := by
  cases node with
  | partialOrder n children body => simp [bodyComplete, BodyComplete, isComplete_iff]
  | choiceGraph n children body =>
    unfold bodyComplete BodyComplete
    cases hcursor : m.cursor.get? path with
    | none => simp [hcursor]
    | some cur =>
      by_cases hcur : cur = body.endIdx
      · subst hcur
        simp [hcursor, childComplete_iff]
      · simp [hcursor, hcur]
  | _ => simp [bodyComplete, BodyComplete]

/-- The cap a step is under. -/
def capOf (capped : Bool) (bound : ExecutionBound) : Option ℤ :=
  if capped then some bound.maxNodeVisits else none

theorem under_capOf {capped : Bool} {bound : ExecutionBound} {count : ℕ} :
    Under (capOf capped bound) count ↔
      ¬(capped && decide (bound.maxNodeVisits ≤ (count : ℤ))) = true := by
  cases capped <;> simp [Under, capOf]

theorem roundsSpent_iff (capped : Bool) (bound : ExecutionBound) (frequency : Frequency)
    (path : NodePath) (m : Marking) : roundsSpent capped bound frequency path m = false ↔
      RoundOpen (capOf capped bound) frequency (m.position.sub path) := by
  have hcap := @under_capOf capped bound (m.visits path (-1))
  rw [Bool.and_eq_true, decide_eq_true_eq] at hcap
  rw [← Bool.not_eq_true, roundsSpent]
  simp only [Bool.or_eq_true, Bool.and_eq_true, Option.any_eq_true, decide_eq_true_eq,
    Bool.not_eq_true', not_or, not_exists, not_and, not_le, ← Bool.not_eq_true, m.inProgress_iff]
  constructor
  · rintro ⟨hmax, hspent⟩
    refine ⟨fun max h => by simpa using hmax max h, fun hpos hidle => ?_⟩
    have hrounds : 0 < m.roundsAt path := by simpa using hpos
    have hunder : Under (capOf capped bound) (m.visits path (-1)) :=
      hcap.mpr fun ⟨hcapped, hle⟩ => absurd hle (not_le.mpr (hspent ⟨⟨hrounds, hidle⟩, hcapped⟩))
    simpa using hunder
  · rintro ⟨hmax, hunder⟩
    refine ⟨fun max h => by simpa using hmax max h, fun ⟨⟨hpos, hidle⟩, hcapped⟩ => ?_⟩
    have hunder := hcap.mp (by simpa using hunder (by simpa using hpos) hidle)
    exact not_le.mp fun hle => hunder ⟨hcapped, hle⟩

theorem enabledFrom_of_isLeaf {capped : Bool} {bound : ExecutionBound} :
    ∀ {node : PowlNode} (_ : node.isLeaf = true) (path : NodePath) (m : Marking),
      enabledFrom capped bound node path m = if path ∈ m.completedPaths then ∅ else {path}
  | .start, _, _, _ | .finish, _, _, _ | .silent, _, _, _ | .atom _, _, _, _ => rfl

theorem mem_enabledFrom_of_isLeaf {capped : Bool} {bound : ExecutionBound} {node : PowlNode}
    (hleaf : node.isLeaf = true) {path : NodePath} {m : Marking} {r : NodePath} :
    r ∈ enabledFrom capped bound node path m ↔
      ∃ rest q, r = path ++ rest ∧
        Fires (capOf capped bound) node (m.position.sub path) rest q := by
  simp only [enabledFrom_of_isLeaf hleaf, fires_of_isLeaf_iff hleaf]
  by_cases hdone : path ∈ m.completedPaths
  · simp [hdone]
  · rw [if_neg hdone, Finset.mem_singleton]
    constructor
    · rintro rfl
      exact ⟨[], _, by simp, rfl, by simpa using hdone, rfl⟩
    · rintro ⟨rest, q, rfl, rfl, -, -⟩
      simp

/-- `_enabled` at a node is the set of its steps. -/
theorem mem_enabledFrom (capped : Bool) (bound : ExecutionBound) :
    ∀ (node : PowlNode) (path : NodePath) (m : Marking) (r : NodePath),
      r ∈ enabledFrom capped bound node path m ↔
        ∃ rest q, r = path ++ rest ∧ Fires (capOf capped bound) node (m.position.sub path) rest q
  | .partialOrder n children body, path, m, r => by
    have hspent := roundsSpent_iff capped bound body.frequency path m
    have hchild : ∀ i : Fin n, r ∈ enabledFrom capped bound (children i) (path ++ [i.val]) m ↔
        ∃ rest q, r = path ++ i.val :: rest ∧
          Fires (capOf capped bound) (children i) ((m.position.sub path).child i) rest q := by
      intro i
      rw [mem_enabledFrom capped bound (children i), Trie.child_sub]
      simp
    rw [enabledFrom]
    split
    · next hclosed =>
      refine iff_of_false (Finset.notMem_empty r) ?_
      rintro ⟨rest, q, -, h⟩
      obtain ⟨i, rest, q, -, hopen, -⟩ := fires_partialOrder_iff.mp h
      simp [hspent.mpr hopen] at hclosed
    · next hopen =>
      have hopen := hspent.mp (by simpa using hopen)
      simp only [Finset.mem_biUnion, Finset.mem_univ, true_and, fires_partialOrder_iff]
      constructor
      · rintro ⟨i, hi⟩
        split_ifs at hi with hcomplete hpred
        · simp at hi
        · obtain ⟨rest, q, rfl, h⟩ := (hchild i).mp hi
          refine ⟨_, _, rfl, i, rest, q, rfl, hopen, ?_, fun e he hdst => ?_, h, rfl⟩
          · rwa [isComplete_iff, ← Trie.child_sub] at hcomplete
          · exact (childComplete_iff _ _ _ _).mp (hpred e he hdst)
        · simp at hi
      · rintro ⟨rest, q, rfl, i, rest, q, rfl, -, hcomplete, hpred, h, rfl⟩
        rw [Trie.child_sub, ← isComplete_iff] at hcomplete
        refine ⟨i, ?_⟩
        rw [if_neg hcomplete, if_pos fun e he hdst => (childComplete_iff _ _ _ _).mpr (hpred e he hdst)]
        exact (hchild i).mpr ⟨rest, q, rfl, h⟩
  | .choiceGraph n children body, path, m, r => by
    have hspent := roundsSpent_iff capped bound body.frequency path m
    have hinside : ∀ i : Fin n, r ∈ enabledFrom capped bound (children i) (path ++ [i.val]) m ↔
        ∃ rest q, r = path ++ i.val :: rest ∧
          Fires (capOf capped bound) (children i) ((m.position.sub path).child i) rest q := by
      intro i
      rw [mem_enabledFrom capped bound (children i), Trie.child_sub]
      simp
    have henter : ∀ i : Fin n,
        r ∈ (if capped && decide (bound.maxNodeVisits ≤ (m.visits path i : ℤ)) then ∅
          else enabledFrom capped bound (children i) (path ++ [i.val])
            (m.purged (path ++ [i.val]))) ↔
        Under (capOf capped bound) (m.visits path i) ∧ ∃ rest q, r = path ++ i.val :: rest ∧
          Fires (capOf capped bound) (children i) (clear ((m.position.sub path).child i)) rest q := by
      intro i
      split
      · next h => simp [under_capOf.not_left.mpr h]
      · next h =>
        rw [mem_enabledFrom capped bound (children i), m.position_purged, Trie.sub_modify,
          Trie.child_sub]
        simp [under_capOf.mpr h]
    have hsteps : (∃ rest q, r = path ++ rest ∧ Fires (capOf capped bound)
        (.choiceGraph n children body) (m.position.sub path) rest q) ↔
        RoundOpen (capOf capped bound) body.frequency (m.position.sub path) ∧ ∃ i : Fin n,
          (m.cursor.get? path = some i.val ∧ childComplete children path m i = false ∧
            r ∈ enabledFrom capped bound (children i) (path ++ [i.val]) m) ∨
          (Candidate children body (m.position.sub path) i ∧
            r ∈ (if capped && decide (bound.maxNodeVisits ≤ (m.visits path i : ℤ)) then ∅
              else enabledFrom capped bound (children i) (path ++ [i.val])
                (m.purged (path ++ [i.val])))) := by
      constructor
      · rintro ⟨_, _, rfl, h⟩
        obtain ⟨i, rest, rfl, hopen, ⟨q, hcursor, hi, h, -⟩ | ⟨q, hcandidate, hunder, h, -⟩⟩ :=
          fires_choiceGraph_iff.mp h
        · refine ⟨hopen, i, Or.inl ⟨by simpa using hcursor, ?_, (hinside i).mpr ⟨rest, q, rfl, h⟩⟩⟩
          rw [← Bool.not_eq_true, childComplete_iff]
          exact fun hcomplete => hi hcomplete.2
        · refine ⟨hopen, i, Or.inr ⟨hcandidate, (henter i).mpr ⟨?_, rest, q, rfl, h⟩⟩⟩
          simpa using hunder
      · rintro ⟨hopen, i, ⟨hcursor, hi, h⟩ | ⟨hcandidate, h⟩⟩
        · obtain ⟨rest, q, hr, hfires⟩ := (hinside i).mp h
          rw [← Bool.not_eq_true, childComplete_iff] at hi
          have hcomplete := fun hc => hi ⟨i.2, hc⟩
          exact ⟨_, _, hr, .inside i hopen (by simpa using hcursor) hcomplete hfires⟩
        · obtain ⟨hunder, rest, q, hr, hfires⟩ := (henter i).mp h
          exact ⟨_, _, hr, .enter i hopen hcandidate (by simpa using hunder) hfires⟩
    rw [hsteps, enabledFrom]
    split
    · next hclosed =>
      refine iff_of_false (Finset.notMem_empty r) fun h => ?_
      simp [hspent.mpr h.1] at hclosed
    · next hopen =>
      have hopen := hspent.mp (by simpa using hopen)
      simp only [hopen, true_and]
      cases hcursor : m.cursor.get? path with
      | none =>
        have hcandidate : ∀ i : Fin n, Candidate children body (m.position.sub path) i ↔
            i.val = body.startIdx := fun i => by simp [Candidate, hcursor]
        simp only [hcandidate, reduceCtorEq, false_and, false_or]
        split
        · next hstart =>
          refine ⟨fun h => ⟨⟨body.startIdx, hstart⟩, rfl, h⟩, ?_⟩
          rintro ⟨⟨_, _⟩, rfl, h⟩
          exact h
        · next hstart =>
          refine iff_of_false (Finset.notMem_empty r) ?_
          rintro ⟨i, hi, -⟩
          exact hstart (hi ▸ i.2)
      | some cur =>
        have hcandidate : ∀ i : Fin n, Candidate children body (m.position.sub path) i ↔
            childComplete children path m cur = true ∧ cur ≠ body.endIdx ∧
              i.val ∈ body.succ cur := fun i => by
          simp [Candidate, hcursor, childComplete_iff]
        simp only [hcandidate, Option.some.injEq]
        split
        · next hcur =>
          simp only [hcur, Bool.false_eq_true, false_and, or_false]
          split
          · next hlt =>
            refine ⟨fun h => ⟨⟨cur, hlt⟩, rfl, hcur, h⟩, ?_⟩
            rintro ⟨⟨_, _⟩, rfl, -, h⟩
            exact h
          · next hlt =>
            refine iff_of_false (Finset.notMem_empty r) ?_
            rintro ⟨i, hi, -⟩
            exact hlt (hi ▸ i.2)
        · next hcur =>
          have hcur : childComplete children path m cur = true := by simpa using hcur
          have hout : ∀ i : Fin n, ¬(cur = i.val ∧ childComplete children path m i = false ∧
              r ∈ enabledFrom capped bound (children i) (path ++ [i.val]) m) := by
            rintro i ⟨rfl, hi, -⟩
            simp [hcur] at hi
          simp only [hout, false_or, hcur, true_and]
          split
          · next hend => simp [hend]
          · next hend =>
            simp only [Finset.mem_biUnion, Finset.mem_univ, true_and, ne_eq, hend, not_false_eq_true]
            refine exists_congr fun i => ?_
            by_cases hsucc : i.val ∈ body.succ cur
            · simp only [hsucc, if_true, true_and]
            · simp only [hsucc, if_false, false_and, Finset.notMem_empty]
  | .start, path, m, r => mem_enabledFrom_of_isLeaf rfl
  | .finish, path, m, r => mem_enabledFrom_of_isLeaf rfl
  | .silent, path, m, r => mem_enabledFrom_of_isLeaf rfl
  | .atom _, path, m, r => mem_enabledFrom_of_isLeaf rfl

/-! ## `fire` at a position -/

/-- `enter` at a depth, as a change of a position. -/
noncomputable def enterAt (model : PowlNode) (path : NodePath) (depth : ℕ) : Position → Position :=
  match nodeAt model (path.take depth), path[depth]? with
  | some node, some i => enterChild node i
  | _, _ => id

/-- `closeRound` at a depth, as a change of a position. -/
noncomputable def closeAt (model : PowlNode) (path : NodePath) (depth : ℕ) : Position → Position :=
  match nodeAt model (path.take depth) with
  | some node => close node
  | none => id

theorem position_closeRound (model : PowlNode) (path : NodePath) (depth : ℕ) (m : Marking) :
    (closeRound model path depth m).position =
      Trie.modify (closeAt model path depth) (path.take depth) m.position := by
  cases hnode : nodeAt model (path.take depth) with
  | none => simp [closeRound, closeAt, hnode]
  | some node =>
    simp only [closeRound, closeAt, hnode]
    have hbody := bodyComplete_iff node (path.take depth) m
    split
    · next h =>
      rw [m.position_bank]
      exact Trie.modify_congr (if_pos (hbody.mp h)).symm
    · next h =>
      refine (Trie.modify_id (path.take depth) m.position).symm.trans ?_
      exact Trie.modify_congr (if_neg (mt hbody.mpr h)).symm

theorem position_enter (model : PowlNode) (path : NodePath) (depth : ℕ) (m : Marking) :
    (enter model path m depth).position =
      Trie.modify (enterAt model path depth) (path.take depth) m.position := by
  cases hnode : nodeAt model (path.take depth) with
  | none => simp [enter, enterAt, hnode]
  | some node =>
    cases hchild : path[depth]? with
    | none => simp [enter, enterAt, hnode, hchild]
    | some i =>
      cases node with
      | choiceGraph n children body =>
        simp only [enter, enterAt, hnode, hchild]
        have hcomplete := childComplete_iff children (path.take depth) m i
        split
        · next h =>
          rw [m.position_select]
          refine Trie.modify_congr (if_pos ?_).symm
          rw [← hcomplete]
          simpa using h
        · next h =>
          refine (Trie.modify_id (path.take depth) m.position).symm.trans ?_
          refine Trie.modify_congr (if_neg ?_).symm
          rw [← hcomplete]
          simpa using h
      | _ =>
        simp only [enter, enterAt, hnode, hchild]
        exact (Trie.modify_id (path.take depth) m.position).symm

theorem enterAt_succ {model child : PowlNode} {i : ℕ} (hchild : model.child? i = some child)
    (path : NodePath) (depth : ℕ) :
    enterAt model (i :: path) (depth + 1) = enterAt child path depth := by
  simp [enterAt, nodeAt, hchild]

theorem closeAt_succ {model child : PowlNode} {i : ℕ} (hchild : model.child? i = some child)
    (path : NodePath) (depth : ℕ) :
    closeAt model (i :: path) (depth + 1) = closeAt child path depth := by
  simp [closeAt, nodeAt, hchild]

/-- Entering the ancestors of a leaf, advancing it and closing their rounds is `stepAt`. -/
theorem stepAt_eq_fold : ∀ (model : PowlNode) (path : NodePath) (p : Position) {node : PowlNode},
    nodeAt model path = some node →
      stepAt model path p =
        (List.range path.length).foldr (fun d => Trie.modify (closeAt model path d) (path.take d))
          (Trie.modify mark path ((List.range path.length).foldl
            (fun p d => Trie.modify (enterAt model path d) (path.take d) p) p))
  | model, [], p, _, _ => rfl
  | model, i :: path, p, node, hnode => by
    obtain ⟨child, hchild, hnode⟩ := Option.bind_eq_some_iff.mp hnode
    rw [stepAt, hchild, List.length_cons, List.range_succ_eq_map, List.foldr_cons, List.foldl_cons,
      List.foldl_map, List.foldr_map]
    simp only [Nat.succ_eq_add_one, List.take_succ_cons, enterAt_succ hchild, closeAt_succ hchild]
    rw [Trie.foldl_modify_cons i (enterAt child path) (path.take ·), Trie.modify_cons,
      Trie.foldr_modify_cons i (closeAt child path) (path.take ·)]
    simp only [Trie.child_graft_self, Trie.graft_graft, List.take_zero, Trie.modify_nil]
    rw [stepAt_eq_fold child path _ hnode]
    rfl

/-- A step leads to a leaf. -/
theorem Fires.nodeAt_eq {cap : Option ℤ} {node : PowlNode} {p q : Position} {path : NodePath}
    (h : Fires cap node p path q) : ∃ leaf, nodeAt node path = some leaf ∧ leaf.isLeaf = true := by
  induction h with
  | leaf hleaf => exact ⟨_, rfl, hleaf⟩
  | branch i _ _ _ _ ih | inside i _ _ _ _ ih | enter i _ _ _ _ ih =>
    obtain ⟨leaf, hnode, hleaf⟩ := ih
    exact ⟨leaf, by simpa [nodeAt] using hnode, hleaf⟩

theorem position_advance (m : Marking) (path : NodePath) (activity contextSha256 : String) :
    (advance m path activity contextSha256).position = Trie.modify mark path m.position := by
  funext q
  rw [Trie.modify_apply]
  by_cases hq : path <+: q
  · obtain ⟨t, rfl⟩ := hq
    cases t with
    | nil => simp [advance, mark, Marking.roundsAt]
    | cons i t => simp [advance, mark, Marking.roundsAt, Trie.relabel]
  · have hne : q ≠ path := fun h => hq (h ▸ List.prefix_refl _)
    simp [advance, Marking.roundsAt, hq, hne]

/-- `enabled` is the set of the model's steps. -/
theorem mem_enabled_iff {model : PowlNode} {m : Marking} {bound : ExecutionBound} {path : NodePath} :
    path ∈ enabled model m bound ↔
      ∃ q, Fires (some bound.maxNodeVisits) model m.position path q := by
  rw [enabled, mem_enabledFrom]
  simp [capOf]

/-- What `fire` returns when it does. -/
theorem fire_eq_ok {K : PowlCanon} {model : PowlNode} {m m' : Marking} {path : NodePath}
    {contextSha256 : String} {bound : ExecutionBound} :
    fire K model m path contextSha256 bound = .ok m' ↔
      path ∈ enabled model m bound ∧ (m.fires + 1 : ℤ) ≤ bound.maxActivityFires ∧
        ∃ node, nodeAt model path = some node ∧
          let working := (List.range path.length).foldl (enter model path) m
          (working.completedPaths.card + 1 : ℤ) ≤ bound.maxMarkingStates ∧
            m' = closeRounds model path (advance working path (K.activityOf node) contextSha256) := by
  unfold fire
  split
  · next h => simp [h]
  · next h =>
    split
    · next hfires => simp [not_le.mpr hfires]
    · next hfires =>
      cases hnode : nodeAt model path with
      | none => simp
      | some node =>
        simp only [Option.some.injEq, exists_eq_left']
        split
        · next hstates => simp [not_le.mpr hstates]
        · next hstates =>
          simp only [Except.ok.injEq]
          have hmem := not_not.mp h
          exact ⟨fun heq => ⟨hmem, not_lt.mp hfires, not_lt.mp hstates, heq.symm⟩,
            fun ⟨_, _, _, heq⟩ => heq.symm⟩

/-- A sequence of `fire` calls from the initial marking, each with its path and context. -/
inductive FireRun (K : PowlCanon) (model : PowlNode) (bound : ExecutionBound) :
    List (NodePath × String) → Marking → Prop
  | nil : FireRun K model bound [] initialMarking
  | snoc {calls : List (NodePath × String)} {m m' : Marking} {path : NodePath}
    {contextSha256 : String} (h : FireRun K model bound calls m)
    (hfire : fire K model m path contextSha256 bound = .ok m') :
    FireRun K model bound (calls ++ [(path, contextSha256)]) m'

/-- The calls one after another. -/
def fireAll (K : PowlCanon) (model : PowlNode) (bound : ExecutionBound)
    (calls : List (NodePath × String)) (m : Marking) : Except PowlRefusal Marking :=
  calls.foldlM (fun m call => fire K model m call.1 call.2 bound) m

theorem fireRun_iff {K : PowlCanon} {model : PowlNode} {bound : ExecutionBound}
    {calls : List (NodePath × String)} {m : Marking} :
    FireRun K model bound calls m ↔ fireAll K model bound calls initialMarking = .ok m := by
  constructor
  · intro h
    induction h with
    | nil => rfl
    | snoc _ hfire ih =>
      rw [fireAll] at ih ⊢
      rw [List.foldlM_append]
      exact bind_eq_ok.mpr ⟨_, ih, bind_eq_ok.mpr ⟨_, hfire, rfl⟩⟩
  · induction calls using List.reverseRecOn generalizing m with
    | nil => exact fun h => Except.ok.inj h ▸ .nil
    | append_singleton calls call ih =>
      intro h
      rw [fireAll, List.foldlM_append] at h
      obtain ⟨m₁, hcalls, hcall⟩ := bind_eq_ok.mp h
      obtain ⟨m₂, hfire, hm⟩ := bind_eq_ok.mp hcall
      exact .snoc (ih hcalls) (Except.ok.inj hm ▸ hfire)

/-- `fire` is a step of the model. -/
theorem fires_of_fire {K : PowlCanon} {model : PowlNode} {m m' : Marking} {path : NodePath}
    {contextSha256 : String} {bound : ExecutionBound}
    (h : fire K model m path contextSha256 bound = .ok m') :
    Fires (some bound.maxNodeVisits) model m.position path m'.position := by
  obtain ⟨hmem, -, node, hnode, -, rfl⟩ := fire_eq_ok.mp h
  obtain ⟨q, hq⟩ := mem_enabled_iff.mp hmem
  have hfoldr : ∀ (l : List ℕ) (w : Marking), (l.foldr (closeRound model path) w).position =
      l.foldr (fun d => Trie.modify (closeAt model path d) (path.take d)) w.position := fun l w =>
    (List.foldr_hom Marking.position fun d w => (position_closeRound model path d w).symm).symm
  have hfoldl : ∀ (l : List ℕ) (w : Marking), (l.foldl (enter model path) w).position =
      l.foldl (fun p d => Trie.modify (enterAt model path d) (path.take d) p) w.position := fun l w =>
    (List.foldl_hom Marking.position fun w d => (position_enter model path d w).symm).symm
  have hstep : _ = q := hq.eq_stepAt.symm
  rw [closeRounds, hfoldr, position_advance, hfoldl, ← stepAt_eq_fold model path _ hnode, hstep]
  exact hq

end GymAct.Powl
