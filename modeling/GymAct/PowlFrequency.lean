import GymAct.PowlRounds

/-!
# How often a child repeats

A child of a partial order is passed over as soon as it is complete, and it is complete as soon
as it has run as often as its frequency asks for : when a round of the partial order is banked,
its child has run `passed` rounds, the least its frequency allows, or none if it is complete
before anything fires in it (`rounds_of_complete`). A repetition that is allowed and not asked
for is never run.

`frequency_rounds_iff` : the rounds a child can run in a round of its partial order.
-/

namespace GymAct.Powl

open Position

/-! ## What closes -/

/-- The marking a fire leaves to `_close_rounds`. -/
def advanced (K : PowlCanon) (model : PowlNode) (m : Marking) (path : NodePath)
    (contextSha256 : String) : Marking :=
  advance ((List.range path.length).foldl (enter model path) m) path
    ((activityAt K model path).getD "") contextSha256

/-- The marking as `_close_rounds` finds it at a depth, the rounds further down being closed. -/
def closingAt (model : PowlNode) (path : NodePath) (depth : ℕ) (m : Marking) : Marking :=
  ((List.range path.length).drop (depth + 1)).foldr (closeRound model path) m

/-- Firing the leaf at a path completes the body of the composite at `r`, whose child `i` has
banked `k` rounds by then. -/
def Closes (K : PowlCanon) (model : PowlNode) (m : Marking) (path : NodePath) (contextSha256 : String)
    (r : NodePath) (i k : ℕ) : Prop :=
  let closing := closingAt model path r.length (advanced K model m path contextSha256)
  (∃ j s, path = r ++ j :: s) ∧ (∃ node, nodeAt model r = some node ∧ bodyComplete node r closing = true) ∧
    closing.roundsAt (r ++ [i]) = k

/-- A run that ends final, and on its way banks a round of the composite at `r` in which the child
`i` has run `k` rounds. -/
def Repeats (K : PowlCanon) (model : PowlNode) (bound : ExecutionBound) (r : NodePath) (i k : ℕ) :
    Prop :=
  ∃ (calls calls' : List (NodePath × String)) (path : NodePath) (contextSha256 : String)
    (m m' m'' : Marking), FireRun K model bound calls m ∧
      fire K model m path contextSha256 bound = .ok m' ∧ Closes K model m path contextSha256 r i k ∧
      fireAll K model bound calls' m' = .ok m'' ∧ isFinal model m'' = true

/-- The position of the composite at `r` after the leaf at `r ++ i :: s` has fired, before its own
round is closed. -/
noncomputable def arrive : PowlNode → NodePath → ℕ → NodePath → Position → Position
  | node, [], i, s, p =>
    match node.child? i with
    | none => p
    | some child =>
      let p' := enterChild node i p
      p'.graft i (stepAt child s (p'.child i))
  | node, j :: r, i, s, p =>
    match node.child? j with
    | none => p
    | some child => arrive child r i s ((enterChild node j p).child j)

/-- `arrive` is what the fold of `_close_rounds` comes to. -/
theorem arrive_eq_fold : ∀ (model : PowlNode) (r : NodePath) (i : ℕ) (s : NodePath) (p : Position)
    {leaf : PowlNode}, nodeAt model (r ++ i :: s) = some leaf →
      (((List.range (r ++ i :: s).length).drop (r.length + 1)).foldr
        (fun d => Trie.modify (closeAt model (r ++ i :: s) d) ((r ++ i :: s).take d))
          (Trie.modify mark (r ++ i :: s) ((List.range (r ++ i :: s).length).foldl
            (fun p d => Trie.modify (enterAt model (r ++ i :: s) d) ((r ++ i :: s).take d) p) p))).sub r =
        arrive model r i s p
  | model, [], i, s, p, leaf, hleaf => by
    obtain ⟨child, hchild, hleaf⟩ := Option.bind_eq_some_iff.mp hleaf
    rw [arrive, hchild, List.nil_append, List.length_cons, List.range_succ_eq_map, List.length_nil,
      List.drop_succ_cons, List.drop_zero, List.foldl_cons, List.foldl_map, List.foldr_map]
    simp only [Nat.succ_eq_add_one, List.take_succ_cons, enterAt_succ hchild, closeAt_succ hchild]
    rw [Trie.foldl_modify_cons i (enterAt child s) (s.take ·), Trie.modify_cons,
      Trie.foldr_modify_cons i (closeAt child s) (s.take ·)]
    simp only [Trie.child_graft_self, Trie.graft_graft, List.take_zero, Trie.modify_nil]
    rw [stepAt_eq_fold child s _ hleaf]
    simp [enterAt, nodeAt]
  | model, j :: r, i, s, p, leaf, hleaf => by
    obtain ⟨child, hchild, hleaf⟩ := Option.bind_eq_some_iff.mp hleaf
    rw [arrive, hchild, List.cons_append, List.length_cons, List.range_succ_eq_map, List.length_cons,
      List.drop_succ_cons, ← List.map_drop, List.foldl_cons, List.foldl_map, List.foldr_map]
    simp only [Nat.succ_eq_add_one, List.take_succ_cons, enterAt_succ hchild, closeAt_succ hchild]
    rw [Trie.foldl_modify_cons j (enterAt child (r ++ i :: s)) ((r ++ i :: s).take ·), Trie.modify_cons,
      Trie.foldr_modify_cons j (closeAt child (r ++ i :: s)) ((r ++ i :: s).take ·)]
    simp only [Trie.child_graft_self, Trie.graft_graft, List.take_zero, Trie.modify_nil]
    rw [Trie.sub_cons, Trie.child_graft_self, arrive_eq_fold child r i s _ hleaf]
    simp [enterAt, nodeAt]

section Closing

variable {K : PowlCanon} {model : PowlNode} {m : Marking} {r s : NodePath} {i j k : ℕ}
  {contextSha256 : String}

theorem sub_closingAt (K : PowlCanon) (m : Marking) (contextSha256 : String) {leaf : PowlNode}
    (hleaf : nodeAt model (r ++ i :: s) = some leaf) :
    (closingAt model (r ++ i :: s) r.length (advanced K model m (r ++ i :: s) contextSha256)).position.sub
      r = arrive model r i s m.position := by
  have hfoldr : ∀ (l : List ℕ) (w : Marking), (l.foldr (closeRound model (r ++ i :: s)) w).position =
      l.foldr (fun d => Trie.modify (closeAt model (r ++ i :: s) d) ((r ++ i :: s).take d)) w.position :=
    fun l w => (List.foldr_hom Marking.position fun d w =>
      (position_closeRound model (r ++ i :: s) d w).symm).symm
  have hfoldl : ∀ (l : List ℕ) (w : Marking), (l.foldl (enter model (r ++ i :: s)) w).position =
      l.foldl (fun p d => Trie.modify (enterAt model (r ++ i :: s) d) ((r ++ i :: s).take d) p)
        w.position :=
    fun l w => (List.foldl_hom Marking.position fun w d =>
      (position_enter model (r ++ i :: s) d w).symm).symm
  rw [closingAt, hfoldr, advanced, position_advance, hfoldl, arrive_eq_fold model r i s _ hleaf]

/-- `Closes`, at the position of the composite. -/
theorem closes_iff {leaf : PowlNode} (hleaf : nodeAt model (r ++ j :: s) = some leaf) {node : PowlNode}
    (hnode : nodeAt model r = some node) :
    Closes K model m (r ++ j :: s) contextSha256 r i k ↔
      BodyComplete node (arrive model r j s m.position) ∧
        ((arrive model r j s m.position).child i []).rounds = k := by
  have hsub := sub_closingAt K m contextSha256 hleaf
  have hrounds (closing : Marking) :
      closing.roundsAt (r ++ [i]) = ((closing.position.sub r).child i []).rounds := rfl
  simp only [Closes, hnode, Option.some.injEq, exists_eq_left', bodyComplete_iff, hrounds, hsub]
  exact ⟨And.right, fun h => ⟨⟨j, s, rfl⟩, h⟩⟩

end Closing

/-! ## No round more than it must -/

/-- A node has run no round more than its frequency asks for. -/
def Sparing (node : PowlNode) (p : Position) : Prop :=
  ∀ frequency ∈ node.frequency?, (p []).rounds ≤ frequency.min ∧
    (InProgress p → (p []).rounds < frequency.min)

/-- No child of a partial order has. -/
def Frugal : PowlNode → Position → Prop
  | .partialOrder _ children _, p =>
    ∀ i, Sparing (children i) (p.child i) ∧ Frugal (children i) (p.child i)
  | .choiceGraph _ children _, p => ∀ i, Frugal (children i) (p.child i)
  | _, _ => True

/-- The rounds a partial order runs of a child. -/
def passed (node : PowlNode) (frequency : Frequency) : ℕ :=
  if skips node = true then 0 else frequency.min

section Frugal

variable {cap : Option ℤ} {node : PowlNode} {p q : Position} {path : NodePath}

theorem frugal_of_not_touched : ∀ {node : PowlNode} {p : Position}, ¬Touched p → Frugal node p
  | .start, _, _ | .finish, _, _ | .silent, _, _ | .atom _, _, _ => trivial
  | .partialOrder n children body, p, h => fun i => by
    have hchild := not_touched_child h i
    refine ⟨fun frequency _ => ⟨?_, fun hprogress => ?_⟩, frugal_of_not_touched hchild⟩
    · rw [(cell_of_not_touched hchild).2.2]
      exact Nat.zero_le _
    · exact absurd hprogress (not_inProgress_of_not_touched hchild)
  | .choiceGraph n children body, p, h => fun i => frugal_of_not_touched (not_touched_child h i)

theorem Frugal.close (h : Frugal node p) : Frugal node (close node p) := by
  unfold Powl.close
  split
  · cases node with
    | partialOrder n children body =>
      exact fun i => ((frugal_of_not_touched (not_touched_clear p) :
        Frugal (.partialOrder n children body) (clear p)) i)
    | choiceGraph n children body =>
      exact fun i => ((frugal_of_not_touched (not_touched_clear p) :
        Frugal (.choiceGraph n children body) (clear p)) i)
    | _ => trivial
  · exact h

/-- A step banks a round and leaves the node between two rounds, or banks none. -/
theorem Fires.rounds (h : Fires cap node p path q) :
    (q []).rounds = (p []).rounds ∨ (q []).rounds = (p []).rounds + 1 ∧ ¬InProgress q := by
  have hclose : ∀ (node : PowlNode) (p : Position), (close node p []).rounds = (p []).rounds ∨
      (close node p []).rounds = (p []).rounds + 1 ∧ ¬InProgress (close node p) := by
    intro node p
    unfold close
    split
    · exact Or.inr ⟨rfl, not_inProgress_banked p⟩
    · exact Or.inl rfl
  cases h with
  | leaf => exact Or.inl rfl
  | branch => exact hclose _ _
  | inside => exact hclose _ _
  | enter => exact hclose _ _

/-- What is not complete has a round to run. -/
theorem Sparing.fires (h : Sparing node p) (hcomplete : ¬Complete node p)
    (hfires : Fires cap node p path q) : Sparing node q := by
  intro frequency hfrequency
  obtain ⟨hle, hlt⟩ := h frequency hfrequency
  have hmin : (p []).rounds < frequency.min := by
    by_contra hmin
    have heq : (p []).rounds = frequency.min := by omega
    refine hcomplete ((complete_iff_of_frequency hfrequency).mpr (Or.inl ⟨?_, fun hp => hmin (hlt hp)⟩))
    rw [heq]
    exact Frequency.allows_iff.mpr ⟨le_rfl, frequency.min_le⟩
  rcases hfires.rounds with hrounds | ⟨hrounds, hidle⟩
  · exact ⟨by omega, fun _ => by omega⟩
  · exact ⟨by omega, fun hprogress => absurd hprogress hidle⟩

theorem Fires.frugal (h : Fires cap node p path q) (hp : Frugal node p) : Frugal node q := by
  induction h with
  | @leaf node _ hleaf =>
    cases node with
    | partialOrder | choiceGraph => simp at hleaf
    | _ => trivial
  | @branch n children body p q path i hopen hi hpred h ih =>
    refine Frugal.close ?_
    exact forall_child_graft (P := fun j c => Sparing (children j) c ∧ Frugal (children j) c) hp
      ⟨(hp i).1.fires hi h, ih (hp i).2⟩
  | @inside n children body p q path i hopen hcursor hi h ih =>
    refine Frugal.close ?_
    exact forall_child_graft (P := fun j c => Frugal (children j) c) hp (ih (hp i))
  | @enter n children body p q path i hopen hcandidate hunder h ih =>
    refine Frugal.close ?_
    exact forall_child_graft (P := fun j c => Frugal (children j) c) hp
      (ih (frugal_of_not_touched (not_touched_clear _)))

/-- The rounds a child that is complete has run. -/
theorem rounds_of_complete {frequency : Frequency} (hfrequency : node.frequency? = some frequency)
    (hlive : Live node p) (hsparing : Sparing node p) (hcomplete : Complete node p)
    (hskips : Touched p → skips node = false) : (p []).rounds = passed node frequency := by
  unfold passed
  by_cases htouched : Touched p
  · rw [if_neg (by simp [hskips htouched])]
    obtain ⟨hle, -⟩ := hsparing frequency hfrequency
    rcases (complete_iff_of_frequency hfrequency).mp hcomplete with ⟨hallows, -⟩ | ⟨-, hbody⟩
    · exact le_antisymm hle (Frequency.allows_iff.mp hallows).1
    · exact absurd hbody (not_bodyComplete_of_idle (hlive.finishes hcomplete htouched)
        (hlive.idle hfrequency hcomplete))
  · rw [if_pos ((complete_iff_skips htouched).mp hcomplete)]
    exact (cell_of_not_touched htouched).2.2

end Frugal

/-! ## A round of a partial order -/

section Arrive

variable {cap : Option ℤ} {node child : PowlNode} {p q : Position} {r s : NodePath} {i j : ℕ}
  {n : ℕ} {children : Fin n → PowlNode} {body : OrderBody}

/-- The step of the node at `r` that a step below it is. -/
theorem Fires.exists_arrive (h : Fires cap node p (r ++ j :: s) q)
    (hnode : nodeAt node r = some (.partialOrder n children body)) (hwf : node.WellFormed)
    (hlive : Live node p) (hfrugal : Frugal node p) :
    ∃ (p' : Position) (q' : Position) (hj : j < n), Live (.partialOrder n children body) p' ∧
      Frugal (.partialOrder n children body) p' ∧ (PowlNode.partialOrder n children body).WellFormed ∧
      Fires cap (.partialOrder n children body) p' (j :: s)
        (close (.partialOrder n children body) (p'.graft j q')) ∧
      ¬Complete (children ⟨j, hj⟩) (p'.child j) ∧ Fires cap (children ⟨j, hj⟩) (p'.child j) s q' ∧
      arrive node r j s p = p'.graft j q' := by
  induction r generalizing node p q with
  | nil =>
    obtain rfl : node = .partialOrder n children body := Option.some.inj hnode
    rw [List.nil_append] at h
    obtain ⟨hj, q', hopen, hchild, hpred, hfires, rfl⟩ := fires_partialOrder_cons_iff.mp h
    refine ⟨p, q', hj, hlive, hfrugal, hwf, h, hchild, hfires, ?_⟩
    simp [arrive, hj, enterChild, hfires.eq_stepAt]
  | cons a r ih =>
    cases h with
    | branch i hopen hi hpred h =>
      have hnode' := by simpa [nodeAt] using hnode
      obtain ⟨p', q', hj, hp'⟩ := ih h hnode' (hwf.2 i) (hlive.2 i) (hfrugal i).2
      refine ⟨p', q', hj, ?_⟩
      simpa [arrive, enterChild] using hp'
    | inside i hopen hcursor hi h =>
      have hnode' := by simpa [nodeAt] using hnode
      obtain ⟨p', q', hj, hp'⟩ := ih h hnode' (hwf.2 i) (hlive.2 i hcursor) (hfrugal i)
      refine ⟨p', q', hj, ?_⟩
      simpa [arrive, enterChild_of_inside hcursor hi] using hp'
    | enter i hopen hcandidate hunder h =>
      have hnode' := by simpa [nodeAt] using hnode
      have hfresh := not_touched_clear (p.child i)
      obtain ⟨p', q', hj, hp'⟩ := ih h hnode' (hwf.2 i) (live_of_not_touched hfresh)
        (frugal_of_not_touched hfresh)
      refine ⟨p', q', hj, ?_⟩
      simpa [arrive, enterChild_of_candidate hcandidate] using hp'

/-- When the body of a partial order is complete, a child has run the rounds it must. -/
theorem rounds_arrive (h : Fires cap node p (r ++ j :: s) q)
    (hnode : nodeAt node r = some (.partialOrder n children body)) (hwf : node.WellFormed)
    (hlive : Live node p) (hfrugal : Frugal node p)
    (hbody : BodyComplete (.partialOrder n children body) (arrive node r j s p)) {i : Fin n}
    {frequency : Frequency} (hfrequency : (children i).frequency? = some frequency) :
    ((arrive node r j s p).child i []).rounds = passed (children i) frequency := by
  obtain ⟨p', q', hj, hlive', hfrugal', hwf', -, hchild, hfires, harrive⟩ :=
    h.exists_arrive hnode hwf hlive hfrugal
  rw [harrive] at hbody ⊢
  obtain ⟨hl, hs, hskips⟩ := forall_child_graft (i := ⟨j, hj⟩) (q := q') (p := p')
    (P := fun k c => Live (children k) c ∧ Sparing (children k) c ∧
      (Touched c → skips (children k) = false))
    (fun k => ⟨hlive'.2 k, (hfrugal' k).1, hlive'.1.unskipped k⟩)
    ⟨hfires.live (hwf'.2 _) (hlive'.2 _), (hfrugal' _).1.fires hchild hfires,
      fun _ => hlive'.1.skips_eq_false hchild⟩ i
  exact rounds_of_complete hfrequency hl hs (hbody i) hskips

end Arrive

/-! ## Where such a round lies -/

/-- A sequence of steps leads to the completion of the node. -/
def Completable (cap : Option ℤ) (node : PowlNode) (p : Position) : Prop :=
  ∃ q, Relation.ReflTransGen (fun a b => ∃ path, Fires cap node a path b) p q ∧ Complete node q

section Completable

variable {cap : Option ℤ} {node : PowlNode} {p q : Position} {path : NodePath} {n : ℕ}
  {children : Fin n → PowlNode}

theorem completable_of_complete (h : Complete node p) : Completable cap node p := ⟨p, .refl, h⟩

theorem Completable.head (h : Completable cap node q) (hstep : Fires cap node p path q) :
    Completable cap node p := by
  obtain ⟨q', hsteps, hcomplete⟩ := h
  exact ⟨q', .head ⟨path, hstep⟩ hsteps, hcomplete⟩

/-- What closes a round finishes. -/
theorem Live.finishes_close {frequency : Frequency} (hfrequency : node.frequency? = some frequency)
    (hbody : BodyComplete node p) (hlive : Live node (close node p)) : Powl.finishes node = true := by
  rw [close, if_pos hbody] at hlive
  cases node with
  | partialOrder n children body => exact hlive.1.banked (Nat.succ_pos _)
  | choiceGraph n children body => exact hlive.1.banked (Nat.succ_pos _)
  | _ => cases hfrequency

/-- A partial order inside a round completes by completing its children. -/
theorem Completable.branches {body : OrderBody} (hwf : (PowlNode.partialOrder n children body).WellFormed)
    (h : Completable cap (.partialOrder n children body) p)
    (hlive : Live (.partialOrder n children body) p) (hprogress : InProgress p) :
    Powl.finishes (.partialOrder n children body) = true ∧
      ∀ i : Fin n, Completable cap (children i) (p.child i) := by
  obtain ⟨q, hsteps, hcomplete⟩ := h
  induction hsteps using Relation.ReflTransGen.head_induction_on with
  | refl => exact absurd hprogress (hlive.idle rfl hcomplete)
  | @head p p' hstep _ ih =>
    obtain ⟨path, hstep⟩ := hstep
    have hlive' := hstep.live hwf hlive
    obtain ⟨i, path, q', -, -, -, -, hfires, rfl⟩ := fires_partialOrder_iff.mp hstep
    -- a child of the next position that can be completed can be from here
    have hback : (∀ k : Fin n, Completable cap (children k) ((p.graft i.val q').child k)) →
        ∀ k : Fin n, Completable cap (children k) (p.child k) := by
      intro hall k
      by_cases hk : k = i
      · subst hk
        have hchild := hall k
        rw [Trie.child_graft_self] at hchild
        exact hchild.head hfires
      · have hchild := hall k
        rwa [Trie.child_graft_of_ne _ _ (Fin.val_ne_of_ne hk)] at hchild
    by_cases hbody : BodyComplete (.partialOrder n children body) (p.graft i.val q')
    · exact ⟨hlive'.finishes_close rfl hbody, hback fun k => completable_of_complete (hbody k)⟩
    · rw [close_of_not hbody] at ih hlive'
      obtain ⟨hfinishes, hall⟩ := ih hlive' (Or.inr ⟨i, by rw [Trie.child_graft_self]; exact hfires.touched⟩)
      exact ⟨hfinishes, hback hall⟩

/-- A choice graph inside a child completes by completing it and going on to its end. -/
theorem Completable.inside {body : ChoiceBody} (hwf : (PowlNode.choiceGraph n children body).WellFormed)
    (h : Completable cap (.choiceGraph n children body) p)
    (hlive : Live (.choiceGraph n children body) p) {i : Fin n} (hcursor : (p []).cursor = some i.val) :
    body.Returns children i ∧ Completable cap (children i) (p.child i) := by
  obtain ⟨q, hsteps, hcomplete⟩ := h
  induction hsteps using Relation.ReflTransGen.head_induction_on generalizing i with
  | refl => exact absurd (Or.inl (by simp [hcursor])) (hlive.idle rfl hcomplete)
  | @head p p' hstep _ ih =>
    obtain ⟨path, hstep⟩ := hstep
    have hlive' := hstep.live hwf hlive
    have hend : ∀ {x : Position} {j : Fin n}, (x []).cursor = some j.val →
        BodyComplete (.choiceGraph n children body) x →
          Live (.choiceGraph n children body) (close (.choiceGraph n children body) x) →
            body.Returns children j ∧ Complete (children j) (x.child j) := by
      intro x j hcursor hbody hlive
      have hfinishes := hlive.finishes_close rfl hbody
      obtain ⟨hcursor', hlt, hcomplete⟩ := hbody
      obtain rfl : j = ⟨body.endIdx, hlt⟩ := Fin.ext (Option.some.inj (hcursor.symm.trans hcursor'))
      exact ⟨⟨.refl, (finishes_choiceGraph_iff.mp hfinishes).2.2⟩, hcomplete⟩
    obtain ⟨j, path, -, -, ⟨q', hcursor', -, hfires, rfl⟩ | ⟨q', hcandidate, -, hfires, rfl⟩⟩ :=
      fires_choiceGraph_iff.mp hstep
    · obtain rfl : i = j := Fin.ext (Option.some.inj (hcursor.symm.trans hcursor'))
      have hnext : body.Returns children i ∧ Completable cap (children i) q' := by
        have hchild : (p.graft i.val q').child i = q' := Trie.child_graft_self _ _ _
        by_cases hbody : BodyComplete (.choiceGraph n children body) (p.graft i.val q')
        · obtain ⟨hreturns, hcomplete⟩ := hend (x := p.graft i.val q') hcursor hbody hlive'
          exact ⟨hreturns, completable_of_complete (hchild ▸ hcomplete)⟩
        · rw [close_of_not hbody] at ih hlive'
          obtain ⟨hreturns, hcompletable⟩ := ih hlive' hcursor
          exact ⟨hreturns, hchild ▸ hcompletable⟩
      exact ⟨hnext.1, hnext.2.head hfires⟩
    · simp only [Candidate, hcursor] at hcandidate
      obtain ⟨⟨_, hcomplete⟩, -, hsucc⟩ := hcandidate
      obtain ⟨-, -, htouched, -⟩ := hlive.1.current _ hcursor
      have hstep : body.Follows children i j := by
        refine ⟨?_, hsucc, ?_⟩
        · rw [atChild_val]
          exact (hlive.2 i hcursor).finishes hcomplete htouched
        · rw [atChild_val]
          exact hfires.offers (not_touched_clear _)
      have hreturns : body.Returns children j := by
        by_cases hbody : BodyComplete (.choiceGraph n children body) (select (p.graft j.val q') j)
        · exact (hend rfl hbody hlive').1
        · rw [close_of_not hbody] at ih hlive'
          exact (ih hlive' rfl).1
      exact ⟨⟨.head hstep hreturns.1, hreturns.2⟩, completable_of_complete hcomplete⟩

/-- The child a choice graph is inside before its round may be closed, if the graph can still be
completed then. -/
theorem Completable.selected {body : ChoiceBody} {i : Fin n}
    (hwf : (PowlNode.choiceGraph n children body).WellFormed)
    (h : Completable cap (.choiceGraph n children body) (close (.choiceGraph n children body) p))
    (hlive : Live (.choiceGraph n children body) (close (.choiceGraph n children body) p))
    (hcursor : (p []).cursor = some i.val) (hmax : ∀ max ∈ body.frequency.max, (p []).rounds < max) :
    body.frequency.max ≠ some 0 ∧ i.val ∈ body.entered children ∧ body.Returns children i ∧
      Completable cap (children i) (p.child i) := by
  refine ⟨fun hzero => Nat.not_lt_zero _ (hmax 0 hzero), ?_⟩
  by_cases hbody : BodyComplete (.choiceGraph n children body) p
  · obtain ⟨-, hentered, hend⟩ := finishes_choiceGraph_iff.mp (hlive.finishes_close rfl hbody)
    obtain ⟨hcursor', hlt, hcomplete⟩ := hbody
    obtain rfl : i = ⟨body.endIdx, hlt⟩ := Fin.ext (Option.some.inj (hcursor.symm.trans hcursor'))
    exact ⟨hentered, ⟨.refl, hend⟩, completable_of_complete hcomplete⟩
  · rw [close_of_not hbody] at h hlive
    obtain ⟨-, hentered, -⟩ := hlive.1.current _ hcursor
    exact ⟨hentered, h.inside hwf hlive hcursor⟩

/-- A partial order that banks a round on the way to the end lies on such a way. -/
theorem passes_of_closes {r s : NodePath} {j : ℕ} {body : OrderBody}
    (h : Fires cap node p (r ++ j :: s) q)
    (hnode : nodeAt node r = some (.partialOrder n children body)) (hwf : node.WellFormed)
    (hlive : Live node p) (hbody : BodyComplete (.partialOrder n children body) (arrive node r j s p))
    (hcompletable : Completable cap node q) : passes node r = true := by
  induction r generalizing node p q with
  | nil =>
    obtain rfl : node = .partialOrder n children body := Option.some.inj hnode
    have hlive' := h.live hwf hlive
    obtain ⟨hj, q', -, -, -, hfires, rfl⟩ := fires_partialOrder_cons_iff.mp h
    have harrive : arrive (.partialOrder n children body) [] j s p = p.graft j q' := by
      simp [arrive, hj, enterChild, hfires.eq_stepAt]
    rw [harrive] at hbody
    exact hlive'.finishes_close rfl hbody
  | cons a r ih =>
    have hlive' := h.live hwf hlive
    cases h with
    | @branch n' children' body' _ q' _ i hopen hi hpred h =>
      have hnode' := by simpa [nodeAt] using hnode
      have hbody' := by simpa [arrive, enterChild] using hbody
      have hnext : Powl.finishes (.partialOrder n' children' body') = true ∧
          Completable cap (children' i) q' := by
        have hchild : (p.graft i.val q').child i = q' := Trie.child_graft_self _ _ _
        by_cases hclose : BodyComplete (.partialOrder n' children' body') (p.graft i.val q')
        · exact ⟨hlive'.finishes_close rfl hclose, completable_of_complete (hchild ▸ hclose i)⟩
        · rw [close_of_not hclose] at hlive' hcompletable
          obtain ⟨hfinishes, hall⟩ := hcompletable.branches hwf hlive'
            (Or.inr ⟨i, by rw [hchild]; exact h.touched⟩)
          exact ⟨hfinishes, hchild ▸ hall i⟩
      exact passes_partialOrder_cons_iff.mpr ⟨hnext.1, i.isLt, hlive.1.skips_eq_false hi,
        ih h hnode' (hwf.2 i) (hlive.2 i) hbody' hnext.2⟩
    | @inside n' children' body' _ q' _ i hopen hcursor hi h =>
      have hnode' := by simpa [nodeAt] using hnode
      have hbody' := by simpa [arrive, enterChild_of_inside hcursor hi] using hbody
      obtain ⟨hmax, hentered, hreturns, hchild⟩ := hcompletable.selected hwf hlive' hcursor
        (p := p.graft i.val q') hopen.lt_max
      rw [Trie.child_graft_self] at hchild
      exact (passes_choiceGraph_cons_iff hwf.1).mpr ⟨hmax, hentered, hreturns, i.isLt,
        ih h hnode' (hwf.2 i) (hlive.2 i hcursor) hbody' hchild⟩
    | @enter n' children' body' _ q' _ i hopen hcandidate hunder h =>
      have hnode' := by simpa [nodeAt] using hnode
      have hbody' := by simpa [arrive, enterChild_of_candidate hcandidate] using hbody
      obtain ⟨hmax, hentered, hreturns, hchild⟩ := hcompletable.selected hwf hlive'
        (p := select (p.graft i.val q') i) rfl hopen.lt_max
      rw [child_select, Trie.child_graft_self] at hchild
      exact (passes_choiceGraph_cons_iff hwf.1).mpr ⟨hmax, hentered, hreturns, i.isLt,
        ih h hnode' (hwf.2 i) (live_of_not_touched (not_touched_clear _)) hbody' hchild⟩

end Completable

/-! ## Runs -/

section Run

variable {K : PowlCanon} {model : PowlNode} {bound : ExecutionBound}
  {calls : List (NodePath × String)} {m m' : Marking}

/-- A counter of rounds goes up where a round is closed. -/
theorem Fires.closes_of_visits {cap : Option ℤ} {node : PowlNode} {p q : Position}
    {path r : NodePath} {n : ℕ} {children : Fin n → PowlNode} {body : OrderBody}
    (h : Fires cap node p path q) (hnode : nodeAt node r = some (.partialOrder n children body))
    (hlt : (p r).visits (-1) < (q r).visits (-1)) :
    ∃ j s, path = r ++ j :: s ∧
      BodyComplete (.partialOrder n children body) (arrive node r j s p) := by
  have hcell : ∀ (node : PowlNode) (p : Position) (i : ℕ) (r : NodePath),
      (close node p (i :: r)).visits = (p (i :: r)).visits := by
    intro node p i r
    unfold close
    split <;> rfl
  induction r generalizing node p q path with
  | nil =>
    obtain rfl : node = .partialOrder n children body := Option.some.inj hnode
    obtain ⟨i, s, q', rfl, -, -, -, hfires, rfl⟩ := fires_partialOrder_iff.mp h
    refine ⟨i, s, rfl, ?_⟩
    by_contra hbody
    have harrive : arrive (.partialOrder n children body) [] i s p = p.graft i.val q' := by
      simp [arrive, enterChild, hfires.eq_stepAt]
    rw [harrive] at hbody
    rw [close_of_not hbody, Trie.graft_nil] at hlt
    exact lt_irrefl _ hlt
  | cons a r ih =>
    cases h with
    | leaf hleaf => exact absurd hlt (lt_irrefl _)
    | @branch n' children' body' _ q' path i hopen hi hpred h =>
      rw [hcell] at hlt
      by_cases ha : a = i.val
      · subst ha
        obtain ⟨j, s, rfl, hbody⟩ := ih h (by simpa [nodeAt] using hnode)
          (by simpa [Trie.graft] using hlt)
        exact ⟨j, s, rfl, by simpa [arrive, enterChild] using hbody⟩
      · simp [Trie.graft, ha] at hlt
    | @inside n' children' body' _ q' path i hopen hcursor hi h =>
      rw [hcell] at hlt
      by_cases ha : a = i.val
      · subst ha
        obtain ⟨j, s, rfl, hbody⟩ := ih h (by simpa [nodeAt] using hnode)
          (by simpa [Trie.graft] using hlt)
        exact ⟨j, s, rfl, by simpa [arrive, enterChild_of_inside hcursor hi] using hbody⟩
      · simp [Trie.graft, ha] at hlt
    | @enter n' children' body' _ q' path i hopen hcandidate hunder h =>
      rw [hcell] at hlt
      by_cases ha : a = i.val
      · subst ha
        obtain ⟨j, s, rfl, hbody⟩ := ih h (by simpa [nodeAt] using hnode)
          (by simpa [select, Trie.relabel, Trie.graft, Position.clear, Cell.clear] using hlt)
        exact ⟨j, s, rfl, by simpa [arrive, enterChild_of_candidate hcandidate] using hbody⟩
      · simp [select, Trie.relabel, Trie.graft, ha] at hlt

theorem FireRun.frugal (h : FireRun K model bound calls m) : Frugal model m.position := by
  induction h with
  | nil => exact frugal_of_not_touched not_touched_initial
  | snoc _ hfire ih => exact (fires_of_fire hfire).frugal ih

theorem completable_of_fireAll (h : fireAll K model bound calls m = .ok m')
    (hfinal : isFinal model m' = true) :
    Completable (some bound.maxNodeVisits) model m.position := by
  induction calls generalizing m with
  | nil =>
    obtain rfl : m = m' := Except.ok.inj h
    exact completable_of_complete (isFinal_iff.mp hfinal)
  | cons call calls ih =>
    obtain ⟨m₁, hfire, hcalls⟩ := Fallible.bind_eq_ok.mp h
    exact (ih hcalls).head (fires_of_fire hfire)

/-- The fire of a run at which a counter of rounds goes up. -/
theorem exists_rise {r : NodePath} {before : List (NodePath × String)}
    (h : fireAll K model bound calls m = .ok m') (hrun : FireRun K model bound before m)
    (hlt : m.visits r (-1) < m'.visits r (-1)) :
    ∃ calls₁ calls₂ path contextSha256 m₁ m₂, FireRun K model bound calls₁ m₁ ∧
      fire K model m₁ path contextSha256 bound = .ok m₂ ∧
      m₁.visits r (-1) < m₂.visits r (-1) ∧ fireAll K model bound calls₂ m₂ = .ok m' := by
  induction calls generalizing m before with
  | nil =>
    obtain rfl : m = m' := Except.ok.inj h
    exact absurd hlt (lt_irrefl _)
  | cons call calls ih =>
    obtain ⟨m₁, hfire, hcalls⟩ := Fallible.bind_eq_ok.mp h
    by_cases hrise : m.visits r (-1) < m₁.visits r (-1)
    · exact ⟨before, calls, call.1, call.2, m, m₁, hrun, hfire, hrise, hcalls⟩
    · exact ih hcalls (hrun.snoc hfire) (by omega)

section Repeats

variable {r : NodePath} {n : ℕ} {children : Fin n → PowlNode} {body : OrderBody} {i : Fin n}
  {frequency : Frequency}

/-- What a child runs in a round that is banked, and where that round lies. -/
theorem passes_of_repeats (hvalid : validateModel model = .ok ())
    (hnode : nodeAt model r = some (.partialOrder n children body))
    (hfrequency : (children i).frequency? = some frequency) {k : ℕ}
    (h : Repeats K model bound r i k) :
    passes model r = true ∧ k = passed (children i) frequency := by
  obtain ⟨calls, calls', path, contextSha256, m, m', m'', hrun, hfire, hcloses, hcalls, hfinal⟩ := h
  obtain ⟨j, s, rfl⟩ := hcloses.1
  have hwf := wellFormed_of_validateModel hvalid
  have hlive := live_of_fireRun hvalid hrun
  have hfires := fires_of_fire hfire
  obtain ⟨leaf, hleaf, -⟩ := hfires.nodeAt_eq
  obtain ⟨hbody, hrounds⟩ := (closes_iff hleaf hnode).mp hcloses
  refine ⟨passes_of_closes hfires hnode hwf hlive hbody (completable_of_fireAll hcalls hfinal), ?_⟩
  rw [← hrounds]
  exact rounds_arrive hfires hnode hwf hlive hrun.frugal hbody hfrequency

/-- A partial order that lies on the way to the end is run there, under bounds that are large
enough. -/
theorem exists_repeats (K : PowlCanon) (hvalid : validateModel model = .ok ())
    (hnode : nodeAt model r = some (.partialOrder n children body))
    (hpasses : passes model r = true) (i : ℕ) :
    ∃ N, ∀ bound, Roomy N bound → ∃ k, Repeats K model bound r i k := by
  obtain ⟨word, hword⟩ := completes_of_passes (wellFormed_of_validateModel hvalid) hpasses
  obtain ⟨q, hleads, hcomplete, hbanked⟩ := hword _ not_touched_initial
  obtain ⟨N, hN⟩ := hleads.exists_run K
  refine ⟨N, fun bound hroomy => ?_⟩
  obtain ⟨m', hcalls, rfl⟩ := hN bound hroomy
  obtain ⟨calls₁, calls₂, path, contextSha256, m₁, m₂, hrun, hfire, hlt, hrest⟩ :=
    exists_rise (fireRun_iff.mp hcalls) .nil (hbanked r rfl)
  have hfires := fires_of_fire hfire
  obtain ⟨j, s, rfl, hbody⟩ := hfires.closes_of_visits hnode hlt
  obtain ⟨leaf, hleaf, -⟩ := hfires.nodeAt_eq
  exact ⟨_, calls₁, calls₂, _, contextSha256, m₁, m₂, m', hrun, hfire,
    (closes_iff hleaf hnode).mpr ⟨hbody, rfl⟩, hrest, isFinal_iff.mpr hcomplete⟩

/-- In a round of a partial order a child runs the rounds it must, and so often only, if the
partial order is run on a way to the end; what it runs is allowed if that number is. -/
theorem frequency_rounds_iff (K : PowlCanon) (hvalid : validateModel model = .ok ())
    (hnode : nodeAt model r = some (.partialOrder n children body))
    (hfrequency : (children i).frequency? = some frequency) :
    (∀ k, ((∃ bound, Repeats K model bound r i k) ↔
        passes model r = true ∧ k = passed (children i) frequency) ∧
      ((∃ N, ∀ bound, Roomy N bound → Repeats K model bound r i k) ↔
        passes model r = true ∧ k = passed (children i) frequency)) ∧
    ((∀ bound k, Repeats K model bound r i k → frequency.allows k = true) ↔
      (passes model r = true → frequency.allows (passed (children i) frequency) = true)) := by
  have hroomy : passes model r = true →
      ∃ N, ∀ bound, Roomy N bound → Repeats K model bound r i (passed (children i) frequency) := by
    intro hpasses
    obtain ⟨N, hN⟩ := exists_repeats K hvalid hnode hpasses i
    refine ⟨N, fun bound hbound => ?_⟩
    obtain ⟨k, hk⟩ := hN bound hbound
    obtain ⟨-, rfl⟩ := passes_of_repeats hvalid hnode hfrequency hk
    exact hk
  have hlarge : ∀ N : ℕ, Roomy N ⟨N, N, N⟩ := fun N => ⟨le_rfl, le_rfl, le_rfl⟩
  refine ⟨fun k => ⟨⟨?_, ?_⟩, ⟨?_, ?_⟩⟩, ?_, ?_⟩
  · rintro ⟨bound, h⟩
    exact passes_of_repeats hvalid hnode hfrequency h
  · rintro ⟨hpasses, rfl⟩
    obtain ⟨N, hN⟩ := hroomy hpasses
    exact ⟨_, hN _ (hlarge N)⟩
  · rintro ⟨N, h⟩
    exact passes_of_repeats hvalid hnode hfrequency (h _ (hlarge N))
  · rintro ⟨hpasses, rfl⟩
    exact hroomy hpasses
  · intro h hpasses
    obtain ⟨N, hN⟩ := hroomy hpasses
    exact h _ _ (hN _ (hlarge N))
  · intro h bound k hk
    obtain ⟨hpasses, rfl⟩ := passes_of_repeats hvalid hnode hfrequency hk
    exact h hpasses

end Repeats

end Run

/-- A partial order of a child that may be repeated and a silent step. -/
def repeatModel (frequency : Frequency) : PowlNode :=
  .partialOrder 2 ![.partialOrder 2 (fun _ => .silent) ⟨∅, ∅, frequency⟩, .silent] ⟨∅, ∅, once⟩

/-- An optional child is accepted, may run once, and never does. -/
theorem optional_never_runs :
    validateModel (repeatModel ⟨0, some 1, fun m _ => Nat.zero_le m⟩) = .ok () ∧
      (⟨0, some 1, fun m _ => Nat.zero_le m⟩ : Frequency).allows 1 = true ∧
      ∀ bound, ¬Repeats .reference (repeatModel ⟨0, some 1, fun m _ => Nat.zero_le m⟩) bound []
        0 1 := by
  obtain ⟨⟨⟩, hvalid⟩ := Fallible.exists_eq_ok_of_isOk
    (x := validateModel (repeatModel ⟨0, some 1, fun m _ => Nat.zero_le m⟩)) (by decide +kernel)
  refine ⟨hvalid, by decide, fun bound h => ?_⟩
  have hnode : nodeAt (repeatModel ⟨0, some 1, fun m _ => Nat.zero_le m⟩) [] =
      some (.partialOrder 2 _ _) := rfl
  have hpassed := (passes_of_repeats (i := (0 : Fin 2)) hvalid hnode rfl h).2
  exact absurd hpassed (by decide +kernel)

/-- A child that must run twice and may run three times runs twice. -/
theorem frequency_rounds_twice :
    (∃ N, ∀ bound, Roomy N bound →
      Repeats .reference (repeatModel ⟨2, some 3, by simp⟩) bound [] 0 2) ∧
      ¬∃ bound, Repeats .reference (repeatModel ⟨2, some 3, by simp⟩) bound [] 0 3 := by
  obtain ⟨⟨⟩, hvalid⟩ := Fallible.exists_eq_ok_of_isOk
    (x := validateModel (repeatModel ⟨2, some 3, by simp⟩)) (by decide +kernel)
  have hnode : nodeAt (repeatModel ⟨2, some 3, by simp⟩) [] = some (.partialOrder 2 _ _) := rfl
  have h := (frequency_rounds_iff (i := (0 : Fin 2)) .reference hvalid hnode rfl).1
  refine ⟨(h 2).2.mpr ⟨by decide +kernel, by decide +kernel⟩, fun h3 => ?_⟩
  exact absurd ((h 3).1.mp h3).2 (by decide +kernel)

end GymAct.Powl
