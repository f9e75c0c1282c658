import GymAct.PowlMarking
import Mathlib.Order.WellFounded

/-!
# When a validated plan can deadlock

A composite may be complete before anything fires in it (`skips`), and may have nothing to
fire in it at all (`offers` is false). A partial order passes over a child that skips; a
choice graph cannot pass over a child that has nothing to fire, and nothing fires in a
composite whose children all skip, however many rounds it must run. `advances` asks of every
child that a run can come to that it has something to fire, and of every child that a run can
finish that something follows.

`not_deadlock_of_deadlockFree` : a validated model that advances does not deadlock.
`zeroModel_deadlocks` is a validated model that does.
-/

namespace GymAct.Powl

open Position

/-! ## What a fresh composite does -/

/-- A property of a child, by its index. -/
def atChild {n : ℕ} (property : Fin n → Bool) (i : ℕ) : Bool :=
  if h : i < n then property ⟨i, h⟩ else false

/-- The node is complete before anything fires in it. -/
def skips : PowlNode → Bool
  | .partialOrder n children body =>
    body.frequency.allows 0 ||
      (body.frequency.allows 1 && (List.finRange n).all fun i => skips (children i))
  | .choiceGraph _ _ body => body.frequency.allows 0
  | _ => false

/-- A leaf of the node can fire before any other has. -/
def offers : PowlNode → Bool
  | .partialOrder n children body =>
    body.frequency.max ≠ some 0 && (List.finRange n).any fun i =>
      !skips (children i) && offers (children i) &&
        decide (∀ e ∈ body.closure, e.dst = i → atChild (fun j => skips (children j)) e.src = true)
  | .choiceGraph _ children body =>
    body.frequency.max ≠ some 0 && atChild (fun i => offers (children i)) body.startIdx
  | _ => true

/-- The children of a choice graph that a run can come to. -/
def entered (n : ℕ) (body : ChoiceBody) (offers finishes : ℕ → Bool) : Finset ℕ :=
  if offers body.startIdx then
    traverse n body.startIdx fun i =>
      if finishes i then (body.succ i).filter fun j => offers j = true else ∅
  else ∅

/-- The node can be completed by firing in it. -/
def finishes : PowlNode → Bool
  | .partialOrder n children body =>
    body.frequency.max ≠ some 0 && ((List.finRange n).any fun i => !skips (children i)) &&
      (List.finRange n).all fun i => skips (children i) || finishes (children i)
  | .choiceGraph n children body =>
    body.frequency.max ≠ some 0 &&
      decide (body.endIdx ∈ entered n body (atChild fun i => offers (children i))
        (atChild fun i => finishes (children i))) &&
      atChild (fun i => finishes (children i)) body.endIdx
  | _ => true

/-- Once something has fired in the node, it is complete or something more can fire. -/
def advances : PowlNode → Bool
  | .partialOrder n children body =>
    !offers (.partialOrder n children body) || (List.finRange n).all fun i =>
      skips (children i) || (offers (children i) && advances (children i)) ||
        !decide (∀ e ∈ body.closure, e.dst = i →
          atChild (fun j => skips (children j) || finishes (children j)) e.src = true)
  | .choiceGraph n children body =>
    !offers (.choiceGraph n children body) || (List.finRange n).all fun i =>
      !decide (i.val ∈ entered n body (atChild fun i => offers (children i))
          (atChild fun i => finishes (children i))) ||
        (advances (children i) &&
          (i.val == body.endIdx || !finishes (children i) ||
            decide (∃ j ∈ body.succ i, atChild (fun j => offers (children j)) j = true)))
  | _ => true

/-- A model that never deadlocks. -/
def deadlockFree (model : PowlNode) : Bool := advances model && (skips model || offers model)

theorem atChild_iff {n : ℕ} {property : Fin n → Bool} {i : ℕ} :
    atChild property i = true ↔ ∃ h : i < n, property ⟨i, h⟩ = true := by
  unfold atChild
  split <;> simp [*]

@[simp]
theorem atChild_val {n : ℕ} {property : Fin n → Bool} (i : Fin n) :
    atChild property i = property i := by
  simp [atChild]

section Inversion

variable {n : ℕ} {children : Fin n → PowlNode}

theorem offers_partialOrder_iff {body : OrderBody} :
    offers (.partialOrder n children body) = true ↔ body.frequency.max ≠ some 0 ∧
      ∃ i : Fin n, skips (children i) = false ∧ offers (children i) = true ∧
        ∀ e ∈ body.closure, e.dst = i → atChild (fun j => skips (children j)) e.src = true := by
  simp [offers, and_assoc]

theorem offers_choiceGraph_iff {body : ChoiceBody} :
    offers (.choiceGraph n children body) = true ↔ body.frequency.max ≠ some 0 ∧
      atChild (fun i => offers (children i)) body.startIdx = true := by
  simp [offers]

theorem finishes_partialOrder_iff {body : OrderBody} :
    finishes (.partialOrder n children body) = true ↔ body.frequency.max ≠ some 0 ∧
      (∃ i, skips (children i) = false) ∧
        ∀ i, skips (children i) = true ∨ finishes (children i) = true := by
  simp [finishes, and_assoc]

/-- The children of a choice graph a run can come to. -/
def ChoiceBody.entered (body : ChoiceBody) (children : Fin n → PowlNode) : Finset ℕ :=
  Powl.entered n body (atChild fun i => offers (children i)) (atChild fun i => finishes (children i))

theorem finishes_choiceGraph_iff {body : ChoiceBody} :
    finishes (.choiceGraph n children body) = true ↔ body.frequency.max ≠ some 0 ∧
      body.endIdx ∈ body.entered children ∧
        atChild (fun i => finishes (children i)) body.endIdx = true := by
  simp [finishes, and_assoc, ChoiceBody.entered]

theorem advances_partialOrder {body : OrderBody}
    (h : advances (.partialOrder n children body) = true)
    (hoffers : offers (.partialOrder n children body) = true) {i : Fin n}
    (hskips : skips (children i) = false)
    (hpred : ∀ e ∈ body.closure, e.dst = i →
      atChild (fun j => skips (children j) || finishes (children j)) e.src = true) :
    offers (children i) = true ∧ advances (children i) = true := by
  simp only [advances, hoffers, Bool.not_true, Bool.false_or, List.all_eq_true, List.mem_finRange,
    true_implies] at h
  have h := h i
  simp only [hskips, Bool.false_or, Bool.or_eq_true, Bool.and_eq_true, Bool.not_eq_true',
    decide_eq_false_iff_not] at h
  exact h.resolve_right (not_not.mpr hpred)

theorem advances_choiceGraph {body : ChoiceBody}
    (h : advances (.choiceGraph n children body) = true)
    (hoffers : offers (.choiceGraph n children body) = true) {i : Fin n}
    (hi : i.val ∈ body.entered children) : advances (children i) = true ∧
      (i.val ≠ body.endIdx → finishes (children i) = true →
        ∃ j ∈ body.succ i, atChild (fun j => offers (children j)) j = true) := by
  simp only [advances, hoffers, Bool.not_true, Bool.false_or, List.all_eq_true, List.mem_finRange,
    true_implies] at h
  have hi' : i.val ∈ Powl.entered n body (atChild fun i => offers (children i))
      (atChild fun i => finishes (children i)) := hi
  have h := h i
  simp only [hi', decide_true, Bool.not_true, Bool.false_or, Bool.and_eq_true, Bool.or_eq_true,
    beq_iff_eq, Bool.not_eq_true', decide_eq_true_eq] at h
  refine ⟨h.1, fun hne hfinishes => ?_⟩
  simpa [hne, hfinishes] using h.2

theorem succ_subset_range {body : ChoiceBody} (hbody : body.WellFormed n) (i : ℕ) :
    body.succ i ⊆ Finset.range n := fun j hj => by
  obtain ⟨e, he, -, rfl⟩ := ChoiceBody.mem_succ.mp hj
  exact Finset.mem_range.mpr (hbody.bounded e he).2

/-- What a run reaches from a child of a choice graph, through children that finish. -/
theorem mem_traverse_finishing {body : ChoiceBody} (hbody : body.WellFormed n)
    {offers finishes : ℕ → Bool} {i j : ℕ} (hi : i < n) :
    (j ∈ traverse n i fun a =>
        if finishes a = true then (body.succ a).filter fun b => offers b = true else ∅) ↔
      Relation.ReflTransGen (fun a b => finishes a = true ∧ b ∈ body.succ a ∧ offers b = true) i j := by
  rw [mem_traverse_iff (fun a => ?_) hi]
  · have hstep : ∀ a b, (b ∈ if finishes a = true then (body.succ a).filter fun b => offers b = true
        else ∅) ↔ finishes a = true ∧ b ∈ body.succ a ∧ offers b = true := fun a b => by
      split <;> simp [*]
    simp only [hstep]
  · split
    · exact (Finset.filter_subset _ _).trans (succ_subset_range hbody a)
    · exact Finset.empty_subset _

theorem mem_entered_iff {body : ChoiceBody} (hbody : body.WellFormed n)
    {offers finishes : ℕ → Bool} {i : ℕ} : i ∈ Powl.entered n body offers finishes ↔
      offers body.startIdx = true ∧ Relation.ReflTransGen
        (fun a b => finishes a = true ∧ b ∈ body.succ a ∧ offers b = true) body.startIdx i := by
  unfold Powl.entered
  split
  · next hstart => rw [mem_traverse_finishing hbody hbody.startIdx_lt, hstart, eq_self, true_and]
  · next hstart => simp [hstart]

theorem startIdx_mem_entered {body : ChoiceBody} (hbody : body.WellFormed n)
    (h : atChild (fun i => offers (children i)) body.startIdx = true) :
    body.startIdx ∈ body.entered children :=
  (mem_entered_iff hbody).mpr ⟨h, .refl⟩

theorem succ_mem_entered {body : ChoiceBody} (hbody : body.WellFormed n) {i j : ℕ}
    (hi : i ∈ body.entered children) (hfinishes : atChild (fun i => finishes (children i)) i = true)
    (hj : j ∈ body.succ i) (hoffers : atChild (fun i => offers (children i)) j = true) :
    j ∈ body.entered children := by
  obtain ⟨hstart, hreach⟩ := (mem_entered_iff hbody).mp hi
  exact (mem_entered_iff hbody).mpr ⟨hstart, hreach.tail ⟨hfinishes, hj, hoffers⟩⟩

end Inversion

/-! ## Fresh positions -/

theorem not_touched_clear (p : Position) : ¬Touched (clear p) := by
  rintro ⟨r, h | h | h⟩
  · exact h
  · exact h rfl
  · exact lt_irrefl 0 h

section Fresh

variable {p : Position}

theorem not_touched_child (h : ¬Touched p) (i : ℕ) : ¬Touched (p.child i) := fun ⟨r, hr⟩ =>
  h ⟨i :: r, hr⟩

theorem cell_of_not_touched (h : ¬Touched p) :
    ¬(p []).done ∧ (p []).cursor = none ∧ (p []).rounds = 0 := by
  refine ⟨fun hd => h ⟨[], Or.inl hd⟩, ?_, ?_⟩
  · by_contra hc
    exact h ⟨[], Or.inr (Or.inl hc)⟩
  · by_contra hr
    exact h ⟨[], Or.inr (Or.inr (Nat.pos_of_ne_zero hr))⟩

theorem not_inProgress_of_not_touched (h : ¬Touched p) : ¬InProgress p := by
  rintro (hc | ⟨i, hi⟩)
  · exact hc (cell_of_not_touched h).2.1
  · exact not_touched_child h i hi

/-- A fresh node is complete when it skips. -/
theorem complete_iff_skips : ∀ {node : PowlNode} {p : Position}, ¬Touched p →
    (Complete node p ↔ skips node = true)
  | .start, p, h | .finish, p, h | .silent, p, h | .atom _, p, h => by
    simpa [Complete, skips] using (cell_of_not_touched h).1
  | .partialOrder n children body, p, h => by
    have hchildren : ∀ i : Fin n, Complete (children i) (p.child i) ↔ skips (children i) = true :=
      fun i => complete_iff_skips (not_touched_child h i)
    simp [Complete, skips, (cell_of_not_touched h).2.2, not_inProgress_of_not_touched h, hchildren]
  | .choiceGraph n children body, p, h => by
    obtain ⟨-, hcursor, hrounds⟩ := cell_of_not_touched h
    simp [Complete, skips, hcursor, hrounds, not_inProgress_of_not_touched h]

theorem childComplete_iff_skips {n : ℕ} {children : Fin n → PowlNode} {i : ℕ}
    (h : ¬Touched p) :
    ChildComplete children p i ↔ atChild (fun j => skips (children j)) i = true := by
  rw [atChild_iff]
  exact exists_congr fun hi => complete_iff_skips (not_touched_child h i)

theorem max_pos_of_offers {node : PowlNode} (h : offers node = true) :
    ∀ frequency ∈ node.frequency?, ∀ max ∈ frequency.max, 0 < max := by
  have hpos : ∀ {frequency : Frequency}, frequency.max ≠ some 0 → ∀ max ∈ frequency.max, 0 < max :=
    fun hne max hmax => Nat.pos_of_ne_zero fun hzero => hne (hzero ▸ hmax)
  intro frequency hfrequency
  cases node with
  | partialOrder n children body =>
    cases hfrequency
    exact hpos (offers_partialOrder_iff.mp h).1
  | choiceGraph n children body =>
    cases hfrequency
    exact hpos (offers_choiceGraph_iff.mp h).1
  | _ => exact absurd hfrequency nofun

/-- What fires in a fresh node was on offer. -/
theorem Fires.offers {cap : Option ℤ} {node : PowlNode} {p q : Position} {path : NodePath}
    (h : Fires cap node p path q) (hfresh : ¬Touched p) : offers node = true := by
  induction h with
  | @leaf node _ hleaf =>
    cases node with
    | partialOrder | choiceGraph => simp at hleaf
    | _ => rfl
  | @branch n children body p _ _ i hopen hi hpred _ ih =>
    refine offers_partialOrder_iff.mpr ⟨fun hmax => ?_, i, ?_, ih (not_touched_child hfresh i),
      fun e he hdst => (childComplete_iff_skips hfresh).mp (hpred e he hdst)⟩
    · exact Nat.not_lt_zero _ (hopen.lt_max 0 hmax)
    · rwa [complete_iff_skips (not_touched_child hfresh i), Bool.not_eq_true] at hi
  | inside i _ hcursor => simp [(cell_of_not_touched hfresh).2.1] at hcursor
  | @enter n children body p _ _ i hopen hcandidate _ _ ih =>
    simp only [Candidate, (cell_of_not_touched hfresh).2.1] at hcandidate
    refine offers_choiceGraph_iff.mpr ⟨fun hmax => ?_, ?_⟩
    · exact Nat.not_lt_zero _ (hopen.lt_max 0 hmax)
    · rw [← hcandidate, atChild_val]
      exact ih (not_touched_clear _)

/-- What is on offer fires, at the start of any round. -/
theorem fires_of_offers : ∀ {node : PowlNode} {p : Position}, offers node = true →
    ¬(p []).done → ¬InProgress p →
    (∀ frequency ∈ node.frequency?, ∀ max ∈ frequency.max, (p []).rounds < max) →
      ∃ path q, Fires none node p path q
  | .start, p, _, hdone, _, _ | .finish, p, _, hdone, _, _ | .silent, p, _, hdone, _, _
  | .atom _, p, _, hdone, _, _ => ⟨[], _, .leaf rfl hdone⟩
  | .partialOrder n children body, p, h, _, hidle, hmax => by
    obtain ⟨-, i, hskips, hoffers, hpred⟩ := offers_partialOrder_iff.mp h
    have hfresh : ∀ j : ℕ, ¬Touched (p.child j) := fun j hj => hidle (Or.inr ⟨j, hj⟩)
    have hcell := cell_of_not_touched (hfresh i)
    obtain ⟨path, q, hq⟩ := fires_of_offers hoffers hcell.1
      (not_inProgress_of_not_touched (hfresh i)) fun frequency hf max hm => by
        rw [hcell.2.2]
        exact max_pos_of_offers hoffers frequency hf max hm
    refine ⟨_, _, .branch i ⟨hmax _ rfl, fun _ _ => nofun⟩ ?_ (fun e he hdst => ?_) hq⟩
    · rw [complete_iff_skips (hfresh i), hskips]
      exact Bool.false_ne_true
    · obtain ⟨hlt, hsrc⟩ := atChild_iff.mp (hpred e he hdst)
      exact ⟨hlt, (complete_iff_skips (hfresh _)).mpr hsrc⟩
  | .choiceGraph n children body, p, h, _, hidle, hmax => by
    obtain ⟨hlt, hoffers⟩ := atChild_iff.mp (offers_choiceGraph_iff.mp h).2
    have hfresh := not_touched_clear (p.child body.startIdx)
    have hcell := cell_of_not_touched hfresh
    obtain ⟨path, q, hq⟩ := fires_of_offers hoffers hcell.1
      (not_inProgress_of_not_touched hfresh) fun frequency hf max hm => by
        rw [hcell.2.2]
        exact max_pos_of_offers hoffers frequency hf max hm
    have hcursor : (p []).cursor = none := by
      by_contra hcursor
      exact hidle (Or.inl hcursor)
    refine ⟨_, _, .enter ⟨body.startIdx, hlt⟩ ⟨hmax _ rfl, fun _ _ => nofun⟩ ?_ nofun hq⟩
    simp [Candidate, hcursor]

end Fresh

/-! ## Positions a run comes to -/

section Live

variable {n : ℕ} {children : Fin n → PowlNode} {p : Position}

/-- A partial order some leaves of which may have fired. -/
structure OrderLive (children : Fin n → PowlNode) (body : OrderBody) (p : Position) : Prop where
  not_done : ¬(p []).done
  cursor : (p []).cursor = none
  rounds_le : ∀ max ∈ body.frequency.max, (p []).rounds ≤ max
  lt_max : InProgress p → ∀ max ∈ body.frequency.max, (p []).rounds < max
  unfinished : InProgress p → ∃ i : Fin n, ¬Complete (children i) (p.child i)
  unskipped : ∀ i : Fin n, Touched (p.child i) → skips (children i) = false
  banked : 0 < (p []).rounds → finishes (.partialOrder n children body) = true
  started : Touched p → offers (.partialOrder n children body) = true

/-- A choice graph some leaves of which may have fired. -/
structure ChoiceLive (children : Fin n → PowlNode) (body : ChoiceBody) (p : Position) : Prop where
  not_done : ¬(p []).done
  rounds_le : ∀ max ∈ body.frequency.max, (p []).rounds ≤ max
  idle : (p []).cursor = none → ∀ i, ¬Touched (p.child i)
  current : ∀ i, (p []).cursor = some i → i < n ∧ i ∈ body.entered children ∧
    Touched (p.child i) ∧ (i = body.endIdx → ¬ChildComplete children p i) ∧
      ∀ max ∈ body.frequency.max, (p []).rounds < max
  banked : 0 < (p []).rounds → finishes (.choiceGraph n children body) = true
  started : Touched p → offers (.choiceGraph n children body) = true

end Live

/-- Every composite of a node that matters to its next step is live. -/
def Live : PowlNode → Position → Prop
  | .partialOrder _ children body, p =>
    OrderLive children body p ∧ ∀ i, Live (children i) (p.child i)
  | .choiceGraph _ children body, p =>
    ChoiceLive children body p ∧ ∀ i, (p []).cursor = some i.val → Live (children i) (p.child i)
  | _, _ => True

theorem live_of_not_touched : ∀ {node : PowlNode} {p : Position}, ¬Touched p → Live node p
  | .start, _, _ | .finish, _, _ | .silent, _, _ | .atom _, _, _ => trivial
  | .partialOrder n children body, p, h => by
    obtain ⟨hdone, hcursor, hrounds⟩ := cell_of_not_touched h
    refine ⟨⟨hdone, hcursor, by simp [hrounds], fun hp => absurd hp (not_inProgress_of_not_touched h),
      fun hp => absurd hp (not_inProgress_of_not_touched h),
      fun i hi => absurd hi (not_touched_child h i), by simp [hrounds], fun ht => absurd ht h⟩,
      fun i => live_of_not_touched (not_touched_child h i)⟩
  | .choiceGraph n children body, p, h => by
    obtain ⟨hdone, hcursor, hrounds⟩ := cell_of_not_touched h
    refine ⟨⟨hdone, by simp [hrounds], fun _ => not_touched_child h, by simp [hcursor],
      by simp [hrounds], fun ht => absurd ht h⟩, by simp [hcursor]⟩

/-- A composite that a run has completed is between two rounds. -/
theorem Live.idle {node : PowlNode} {p : Position} {frequency : Frequency}
    (hfrequency : node.frequency? = some frequency) (h : Live node p) (hcomplete : Complete node p) :
    ¬InProgress p := by
  intro hprogress
  cases node with
  | partialOrder n children body =>
    rcases hcomplete with ⟨-, hidle⟩ | ⟨-, hall⟩
    · exact hidle hprogress
    · obtain ⟨i, hi⟩ := h.1.unfinished hprogress
      exact hi (hall i)
  | choiceGraph n children body =>
    rcases hcomplete with ⟨-, hidle⟩ | ⟨-, hcursor, hend⟩
    · exact hidle hprogress
    · exact (h.1.current _ hcursor).2.2.2.1 rfl hend
  | _ => exact absurd hfrequency nofun

/-- A node that a run has completed finishes. -/
theorem Live.finishes : ∀ {node : PowlNode} {p : Position}, Live node p → Complete node p →
    Touched p → finishes node = true
  | .start, _, _, _, _ | .finish, _, _, _, _ | .silent, _, _, _, _ | .atom _, _, _, _, _ => rfl
  | .partialOrder n children body, p, h, hcomplete, ⟨r, hr⟩ => by
    refine h.1.banked ?_
    cases r with
    | nil =>
      rcases hr with hr | hr | hr
      · exact absurd hr h.1.not_done
      · exact absurd h.1.cursor hr
      · exact hr
    | cons i r => exact absurd (Or.inr ⟨i, r, hr⟩) (h.idle rfl hcomplete)
  | .choiceGraph n children body, p, h, hcomplete, ⟨r, hr⟩ => by
    have hidle : ¬InProgress p := h.idle rfl hcomplete
    refine h.1.banked ?_
    cases r with
    | nil =>
      rcases hr with hr | hr | hr
      · exact absurd hr h.1.not_done
      · exact absurd (Or.inl hr) hidle
      · exact hr
    | cons i r => exact absurd (Or.inr ⟨i, r, hr⟩) hidle

theorem Live.skips_or_finishes {node : PowlNode} {p : Position} (h : Live node p)
    (hcomplete : Complete node p) : skips node = true ∨ Powl.finishes node = true := by
  by_cases htouched : Touched p
  · exact Or.inr (h.finishes hcomplete htouched)
  · exact Or.inl ((complete_iff_skips htouched).mp hcomplete)

/-- A step leaves its mark. -/
theorem Fires.touched {cap : Option ℤ} {node : PowlNode} {p q : Position} {path : NodePath}
    (h : Fires cap node p path q) : Touched q := by
  have hclose : ∀ (node : PowlNode) (p : Position) (i : ℕ), Touched (p.child i) →
      Touched (close node p) := by
    rintro node p i ⟨r, hr⟩
    unfold close
    split
    · exact ⟨[], Or.inr (Or.inr (Nat.succ_pos _))⟩
    · exact ⟨i :: r, hr⟩
  induction h with
  | leaf => exact ⟨[], Or.inl trivial⟩
  | branch i _ _ _ _ ih | inside i _ _ _ _ ih =>
    exact hclose _ _ i.val (by rwa [Trie.child_graft_self])
  | enter i _ _ _ _ ih =>
    exact hclose _ _ i.val (by rwa [child_select, Trie.child_graft_self])

section Step

variable {cap : Option ℤ} {n : ℕ} {children : Fin n → PowlNode} {p q : Position} {path : NodePath}

/-- A partial order passes over a child that skips. -/
theorem OrderLive.skips_eq_false {body : OrderBody} (hp : OrderLive children body p) {i : Fin n}
    (hi : ¬Complete (children i) (p.child i)) : skips (children i) = false := by
  by_cases htouched : Touched (p.child i)
  · exact hp.unskipped i htouched
  · rwa [complete_iff_skips htouched, Bool.not_eq_true] at hi

/-- A partial order after a step of one of its children. -/
theorem live_close_partialOrder {body : OrderBody} {i : Fin n}
    (hopen : RoundOpen cap body.frequency p)
    (hp : Live (.partialOrder n children body) p) (hskips : skips (children i) = false)
    (hoffers : offers (.partialOrder n children body) = true) (hq : Live (children i) q) :
    Live (.partialOrder n children body)
      (close (.partialOrder n children body) (p.graft i.val q)) := by
  have hchildren : ∀ j : Fin n, Live (children j) ((p.graft i.val q).child j) :=
    forall_child_graft hp.2 hq
  unfold close
  split
  · next hbody =>
    refine ⟨⟨fun h => h, rfl, fun max hmax => hopen.lt_max max hmax, fun h => ?_, fun h => ?_,
      fun j hj => ?_, fun _ => ?_, fun _ => hoffers⟩,
      fun j => live_of_not_touched (not_touched_clear _)⟩
    · exact absurd h (not_inProgress_banked _)
    · exact absurd h (not_inProgress_banked _)
    · exact absurd hj (not_touched_clear _)
    · refine finishes_partialOrder_iff.mpr ⟨fun hmax => ?_, ⟨i, hskips⟩, fun j => ?_⟩
      · exact Nat.not_lt_zero _ (hopen.lt_max 0 hmax)
      · exact (hchildren j).skips_or_finishes (hbody j)
  · next hbody =>
    refine ⟨⟨hp.1.not_done, hp.1.cursor, hp.1.rounds_le, fun _ => hopen.lt_max,
      fun _ => not_forall.mp hbody, ?_, hp.1.banked, fun _ => hoffers⟩, hchildren⟩
    exact forall_child_graft (P := fun j c => Touched c → skips (children j) = false)
      hp.1.unskipped fun _ => hskips

/-- A choice graph after a step of the child it is inside. -/
theorem live_close_choiceGraph {body : ChoiceBody} {i : Fin n}
    (hmax : ∀ max ∈ body.frequency.max, (p []).rounds < max) (hdone : ¬(p []).done)
    (hcursor : (p []).cursor = some i.val) (hentered : i.val ∈ body.entered children)
    (hlive : Live (children i) (p.child i)) (htouched : Touched (p.child i))
    (hbanked : 0 < (p []).rounds → finishes (.choiceGraph n children body) = true)
    (hoffers : offers (.choiceGraph n children body) = true) :
    Live (.choiceGraph n children body) (close (.choiceGraph n children body) p) := by
  unfold close
  split
  · next hbody =>
    have hend : i.val = body.endIdx := Option.some.inj (hcursor.symm.trans hbody.1)
    refine ⟨⟨fun h => h, fun max h => hmax max h, fun _ j => not_touched_clear _,
      fun _ => nofun, fun _ => ?_, fun _ => hoffers⟩, fun _ => nofun⟩
    refine finishes_choiceGraph_iff.mpr ⟨fun h => Nat.not_lt_zero _ (hmax 0 h), hend ▸ hentered, ?_⟩
    obtain ⟨hlt, hcomplete⟩ := hbody.2
    have hi : i = ⟨body.endIdx, hlt⟩ := Fin.ext hend
    subst hi
    exact atChild_iff.mpr ⟨hlt, hlive.finishes hcomplete htouched⟩
  · next hbody =>
    refine ⟨⟨hdone, fun max h => (hmax max h).le, fun h => ?_, fun j hj => ?_, hbanked,
      fun _ => hoffers⟩, fun j hj => ?_⟩
    · simp [hcursor] at h
    · obtain rfl : i.val = j := Option.some.inj (hcursor.symm.trans hj)
      exact ⟨i.isLt, hentered, htouched, fun hend hcomplete => hbody ⟨hend ▸ hcursor, hend ▸ hcomplete⟩,
        hmax⟩
    · obtain rfl : i = j := Fin.ext (Option.some.inj (hcursor.symm.trans hj))
      exact hlive

/-- A step leads from a live position to a live position. -/
theorem Fires.live {node : PowlNode} (h : Fires cap node p path q) (hnode : node.WellFormed)
    (hp : Live node p) : Live node q := by
  induction h with
  | @leaf node _ hleaf =>
    cases node with
    | partialOrder | choiceGraph => simp at hleaf
    | _ => trivial
  | @branch n children body p q path i hopen hi hpred h ih =>
    have hskips := hp.1.skips_eq_false hi
    have hoffers : Powl.offers (.partialOrder n children body) = true := by
      by_cases htouched : Touched p
      · exact hp.1.started htouched
      · exact (Fires.branch i hopen hi hpred h).offers htouched
    exact live_close_partialOrder hopen hp hskips hoffers (ih (hnode.2 i) (hp.2 i))
  | @inside n children body p q path i hopen hcursor hi h ih =>
    obtain ⟨-, hentered, htouched, -, -⟩ := hp.1.current _ hcursor
    have hoffers := hp.1.started ⟨i.val :: _, htouched.choose_spec⟩
    refine live_close_choiceGraph hopen.lt_max hp.1.not_done hcursor hentered ?_ ?_ hp.1.banked hoffers
    · rw [Trie.child_graft_self]
      exact ih (hnode.2 i) (hp.2 i hcursor)
    · rw [Trie.child_graft_self]
      exact h.touched
  | @enter n children body p q path i hopen hcandidate hunder h ih =>
    have hchild : atChild (fun i => Powl.offers (children i)) i.val = true := by
      rw [atChild_val]
      exact h.offers (not_touched_clear _)
    have hoffers : Powl.offers (.choiceGraph n children body) = true := by
      by_cases htouched : Touched p
      · exact hp.1.started htouched
      · exact (Fires.enter i hopen hcandidate hunder h).offers htouched
    have hentered : i.val ∈ body.entered children := by
      cases hcursor : (p []).cursor with
      | none =>
        simp only [Candidate, hcursor] at hcandidate
        exact hcandidate ▸ startIdx_mem_entered hnode.1 (offers_choiceGraph_iff.mp hoffers).2
      | some cur =>
        simp only [Candidate, hcursor] at hcandidate
        obtain ⟨⟨hlt, hcomplete⟩, -, hsucc⟩ := hcandidate
        obtain ⟨-, hcur, htouched, -, -⟩ := hp.1.current cur hcursor
        have hfinishes := (hp.2 ⟨cur, hlt⟩ hcursor).finishes hcomplete htouched
        exact succ_mem_entered hnode.1 hcur (atChild_iff.mpr ⟨hlt, hfinishes⟩) hsucc hchild
    refine live_close_choiceGraph hopen.lt_max hp.1.not_done rfl hentered ?_ ?_ hp.1.banked hoffers
    · rw [child_select, Trie.child_graft_self]
      exact ih (hnode.2 i) (live_of_not_touched (not_touched_clear _))
    · rw [child_select, Trie.child_graft_self]
      exact h.touched

end Step

/-! ## Progress -/

/-- Of the children of a partial order that are not complete, one waits for no other. -/
theorem exists_first {n : ℕ} {body : OrderBody} (hbody : body.WellFormed n) {P : Fin n → Prop}
    (h : ∃ i, P i) : ∃ i, P i ∧ ∀ e ∈ body.closure, e.dst = i → ∀ hsrc : e.src < n, ¬P ⟨e.src, hsrc⟩ := by
  let before : Fin n → Fin n → Prop := fun j i => ⟨j.val, i.val⟩ ∈ body.closure
  have htrans : IsTrans (Fin n) before := ⟨fun _ _ _ hij hjk => hbody.trans hij hjk⟩
  have hirrefl : Std.Irrefl before := ⟨fun i => hbody.irrefl i⟩
  have hwf : WellFounded before := Finite.wellFounded_of_trans_of_irrefl before
  obtain ⟨i, hi, hmin⟩ := hwf.has_min { i | P i } h
  refine ⟨i, hi, fun e he hdst hsrc hP => hmin ⟨e.src, hsrc⟩ hP ?_⟩
  have hbefore : ⟨e.src, i.val⟩ ∈ body.closure := hdst ▸ he
  exact hbefore

theorem Frequency.lt_max_of_not_allows {f : Frequency} {count : ℕ} (h : ¬f.allows count = true)
    (hle : ∀ max ∈ f.max, count ≤ max) : ∀ max ∈ f.max, count < max := by
  intro max hmax
  have hmin : ¬f.min ≤ count := fun hmin => h (Frequency.allows_iff.mpr ⟨hmin, hle⟩)
  have := f.min_le max hmax
  omega

/-- Between two rounds, what is not complete is on offer. -/
theorem offers_of_idle {node : PowlNode} {p : Position} (hstarted : Touched p → offers node = true)
    (hfresh : ¬Touched p → skips node = true ∨ offers node = true)
    (hcomplete : ¬Complete node p) : offers node = true := by
  by_cases htouched : Touched p
  · exact hstarted htouched
  · refine (hfresh htouched).resolve_left fun hskips => hcomplete ?_
    exact (complete_iff_skips htouched).mpr hskips

/-- A live position that is not complete has something to fire. -/
theorem Live.progress : ∀ {node : PowlNode} {p : Position}, node.WellFormed → Live node p →
    advances node = true → (¬Touched p → skips node = true ∨ offers node = true) →
    ¬Complete node p → ∃ path q, Fires none node p path q
  | .start, p, _, _, _, _, h | .finish, p, _, _, _, _, h | .silent, p, _, _, _, _, h
  | .atom _, p, _, _, _, _, h => ⟨[], _, .leaf rfl h⟩
  | .partialOrder n children body, p, hnode, ⟨hp, hchildren⟩, hadvances, hfresh, hcomplete => by
    by_cases hprogress : InProgress p
    · have htouched : Touched p := by
        rcases hprogress with hc | ⟨i, r, hr⟩
        · exact ⟨[], Or.inr (Or.inl hc)⟩
        · exact ⟨i :: r, hr⟩
      obtain ⟨i, hi, hfirst⟩ := exists_first hnode.1 (hp.unfinished hprogress)
      have hpred : ∀ e ∈ body.closure, e.dst = i → ChildComplete children p e.src :=
        fun e he hdst => ⟨(hnode.1.bounded e he).1,
          not_not.mp (hfirst e he hdst (hnode.1.bounded e he).1)⟩
      have hskips := hp.skips_eq_false hi
      obtain ⟨hoffers, hadvance⟩ := advances_partialOrder hadvances (hp.started htouched) hskips
        fun e he hdst => by
          obtain ⟨hlt, hc⟩ := hpred e he hdst
          refine atChild_iff.mpr ⟨hlt, ?_⟩
          simpa using (hchildren ⟨e.src, hlt⟩).skips_or_finishes hc
      obtain ⟨path, q, hq⟩ := (hchildren i).progress (hnode.2 i) hadvance (fun _ => Or.inr hoffers) hi
      exact ⟨_, _, .branch i ⟨hp.lt_max hprogress, fun _ _ => nofun⟩ hi hpred hq⟩
    · have hoffers := offers_of_idle hp.started hfresh hcomplete
      refine fires_of_offers hoffers hp.not_done hprogress fun _ hfrequency => ?_
      cases hfrequency
      exact Frequency.lt_max_of_not_allows (fun h => hcomplete (Or.inl ⟨h, hprogress⟩)) hp.rounds_le
  | .choiceGraph n children body, p, hnode, ⟨hp, hchildren⟩, hadvances, hfresh, hcomplete => by
    cases hcursor : (p []).cursor with
    | none =>
      have hidle : ¬InProgress p := by
        rintro (h | ⟨i, h⟩)
        · exact h hcursor
        · exact hp.idle hcursor i h
      have hoffers := offers_of_idle hp.started hfresh hcomplete
      refine fires_of_offers hoffers hp.not_done hidle fun _ hfrequency => ?_
      cases hfrequency
      exact Frequency.lt_max_of_not_allows (fun h => hcomplete (Or.inl ⟨h, hidle⟩)) hp.rounds_le
    | some cur =>
      obtain ⟨hlt, hentered, htouched, hend, hmax⟩ := hp.current cur hcursor
      have hoffers := hp.started ⟨[], Or.inr (Or.inl (by simp [hcursor]))⟩
      have hopen : RoundOpen none body.frequency p := ⟨hmax, fun _ _ => nofun⟩
      obtain ⟨hadvance, hnext⟩ := advances_choiceGraph (i := ⟨cur, hlt⟩) hadvances hoffers hentered
      have hlive := hchildren ⟨cur, hlt⟩ hcursor
      by_cases hcur : Complete (children ⟨cur, hlt⟩) (p.child cur)
      · have hne : cur ≠ body.endIdx := fun h => hend h ⟨hlt, hcur⟩
        obtain ⟨j, hj, hjoffers⟩ := hnext hne (hlive.finishes hcur htouched)
        obtain ⟨hjlt, hjoffers⟩ := atChild_iff.mp hjoffers
        have hclear := cell_of_not_touched (not_touched_clear (p.child j))
        obtain ⟨path, q, hq⟩ := fires_of_offers hjoffers hclear.1
          (not_inProgress_of_not_touched (not_touched_clear _)) fun frequency hf max hm => by
            rw [hclear.2.2]
            exact max_pos_of_offers hjoffers frequency hf max hm
        refine ⟨_, _, .enter ⟨j, hjlt⟩ hopen ?_ nofun hq⟩
        simp only [Candidate, hcursor]
        exact ⟨⟨hlt, hcur⟩, hne, hj⟩
      · obtain ⟨path, q, hq⟩ := hlive.progress (hnode.2 ⟨cur, hlt⟩) hadvance
          (fun h => absurd htouched h) hcur
        exact ⟨_, _, .inside ⟨cur, hlt⟩ hopen hcursor hcur hq⟩

/-! ## Runs -/

section Run

variable {K : PowlCanon} {model : PowlNode} {bound : ExecutionBound}
  {calls : List (NodePath × String)} {m : Marking}

theorem not_touched_initial : ¬Touched initialMarking.position := by
  rintro ⟨r, h | h | h⟩ <;> simp [initialMarking, Marking.roundsAt] at h

theorem live_of_fireRun (hvalid : validateModel model = .ok ())
    (h : FireRun K model bound calls m) : Live model m.position := by
  induction h with
  | nil => exact live_of_not_touched not_touched_initial
  | snoc _ hfire ih => exact (fires_of_fire hfire).live (wellFormed_of_validateModel hvalid) ih

theorem isFinal_iff {model : PowlNode} {m : Marking} :
    isFinal model m = true ↔ Complete model m.position := by
  rw [isFinal, isComplete_iff, Trie.sub_nil]

/-- What can fire with the visit caps ignored. -/
theorem enabledFrom_nonempty_iff {model : PowlNode} {m : Marking} {bound : ExecutionBound} :
    (enabledFrom false bound model [] m).Nonempty ↔ ∃ path q, Fires none model m.position path q := by
  simp [Finset.Nonempty, mem_enabledFrom, capOf]

/-- A model whose children all go on never deadlocks. -/
theorem not_deadlock_of_deadlockFree (hvalid : validateModel model = .ok ())
    (hfree : deadlockFree model = true) (h : FireRun K model bound calls m)
    (hfinal : isFinal model m = false) :
    (enabledFrom false bound model [] m).Nonempty ∧ classifyStall model m bound ≠ .deadlock := by
  have hfree : advances model = true ∧ (skips model = true ∨ offers model = true) := by
    simpa [deadlockFree] using hfree
  have hcomplete : ¬Complete model m.position := by
    rw [← isFinal_iff, hfinal]
    exact Bool.false_ne_true
  have hnonempty : (enabledFrom false bound model [] m).Nonempty := enabledFrom_nonempty_iff.mpr
    ((live_of_fireRun hvalid h).progress (wellFormed_of_validateModel hvalid) hfree.1
      (fun _ => hfree.2) hcomplete)
  refine ⟨hnonempty, ?_⟩
  rw [classifyStall, if_pos hnonempty]
  split
  · exact nofun
  · split <;> exact nofun

end Run

/-- A choice graph whose middle child is a partial order of zero repetitions. -/
def zeroModel : PowlNode :=
  .choiceGraph 3 ![.start, .partialOrder 2 ![.silent, .silent] ⟨∅, ∅, ⟨0, some 0, by simp⟩⟩, .finish]
    { edges := {⟨0, 1, none⟩, ⟨1, 2, none⟩}, startIdx := 0, endIdx := 2 }

/-- It is accepted, and stuck once its start has fired. -/
theorem zeroModel_deadlocks : validateModel zeroModel = .ok () ∧
    ∃ m, FireRun .reference zeroModel defaultBound [([0], "")] m ∧ isFinal zeroModel m = false ∧
      enabledFrom false defaultBound zeroModel [] m = ∅ ∧
      classifyStall zeroModel m defaultBound = .deadlock := by
  obtain ⟨⟨⟩, hvalid⟩ := Fallible.exists_eq_ok_of_isOk (x := validateModel zeroModel)
    (by decide +kernel)
  obtain ⟨m, hm, hcheck⟩ := exists_eq_ok_of_any
    (x := fireAll .reference zeroModel defaultBound [([0], "")] initialMarking)
    (c := fun m => !isFinal zeroModel m && (enabledFrom false defaultBound zeroModel [] m = ∅) &&
      classifyStall zeroModel m defaultBound = .deadlock) (by decide +kernel)
  simp only [Bool.and_eq_true, Bool.not_eq_true', decide_eq_true_eq] at hcheck
  exact ⟨hvalid, m, fireRun_iff.mpr hm, hcheck.1.1, hcheck.1.2, hcheck.2⟩

theorem not_deadlock_loop : ∃ m,
    fireAll .reference loopModel defaultBound [([0], ""), ([1], "")] initialMarking = .ok m ∧
      isFinal loopModel m = false ∧ classifyStall loopModel m defaultBound ≠ .deadlock := by
  obtain ⟨⟨⟩, hvalid⟩ := Fallible.exists_eq_ok_of_isOk (x := validateModel loopModel)
    (by decide +kernel)
  obtain ⟨m, hm, hcheck⟩ := exists_eq_ok_of_any
    (x := fireAll .reference loopModel defaultBound [([0], ""), ([1], "")] initialMarking)
    (c := fun m => !isFinal loopModel m) (by decide +kernel)
  have hfinal : isFinal loopModel m = false := by simpa using hcheck
  exact ⟨m, hm, hfinal, (not_deadlock_of_deadlockFree hvalid (by decide +kernel)
    (fireRun_iff.mpr hm) hfinal).2⟩

end GymAct.Powl
