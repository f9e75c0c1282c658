import GymAct.PowlLiveness

/-!
# Independent steps

Two leaves are concurrent when the last node on both their paths is a partial order. If both
may advance, then the advance of one leaves the other as it was : its branch of the partial
order is not complete, so that no round of a node on both paths is banked by the first of the
two (`Fires.diamond`).

`independent_steps_commute` : both stay enabled, and either order leads to the same marking.
-/

namespace GymAct.Powl

open Position

/-- Two paths whose last common node is a partial order. -/
def Concurrent (model : PowlNode) (p q : NodePath) : Prop :=
  ∃ (r : NodePath) (a b : ℕ) (p' q' : NodePath) (n : ℕ) (children : Fin n → PowlNode)
    (body : OrderBody), p = r ++ a :: p' ∧ q = r ++ b :: q' ∧ a ≠ b ∧
      nodeAt model r = some (.partialOrder n children body)

section Diamond

variable {cap : Option ℤ} {node : PowlNode} {p p₁ p₂ : Position} {path path' : NodePath}

theorem Concurrent.symm (h : Concurrent node path path') : Concurrent node path' path := by
  obtain ⟨r, a, b, p', q', n, children, body, hp, hq, hne, hnode⟩ := h
  exact ⟨r, b, a, q', p', n, children, body, hq, hp, hne.symm, hnode⟩

/-- Two steps that lead to one position in either order. The first of them leaves the node
incomplete. -/
structure Diamond (cap : Option ℤ) (node : PowlNode) (p₁ p₂ : Position) (path path' : NodePath) :
    Prop where
  left : ¬Complete node p₁
  right : ¬Complete node p₂
  joins : ∃ q, Fires cap node p₁ path' q ∧ Fires cap node p₂ path q

theorem close_of_not {node : PowlNode} {p : Position} (h : ¬BodyComplete node p) : close node p = p :=
  if_neg h

theorem graft_comm (p q q' : Position) {i j : ℕ} (hij : i ≠ j) :
    (p.graft i q).graft j q' = (p.graft j q').graft i q := by
  refine Trie.ext_children rfl fun k => ?_
  by_cases hi : k = i
  · subst hi
    rw [Trie.child_graft_of_ne _ _ hij, Trie.child_graft_self, Trie.child_graft_self]
  · by_cases hj : k = j
    · subst hj
      rw [Trie.child_graft_self, Trie.child_graft_of_ne _ _ hi, Trie.child_graft_self]
    · rw [Trie.child_graft_of_ne _ _ hj, Trie.child_graft_of_ne _ _ hi, Trie.child_graft_of_ne _ _ hi,
        Trie.child_graft_of_ne _ _ hj]

/-- A round that is open stays open once something has happened in it. -/
theorem RoundOpen.inProgress {frequency : Frequency} {p p' : Position} (h : RoundOpen cap frequency p)
    (hrounds : (p' []).rounds = (p []).rounds) (hprogress : InProgress p') :
    RoundOpen cap frequency p' :=
  ⟨fun max hmax => by rw [hrounds]; exact h.lt_max max hmax, fun _ hidle => absurd hprogress hidle⟩

/-- What a partial order of which one child is not complete does after a step in another. -/
theorem not_complete_partialOrder {n : ℕ} {children : Fin n → PowlNode} (body : OrderBody)
    {p : Position} (hprogress : InProgress p) {i : Fin n} (hi : ¬Complete (children i) (p.child i)) :
    ¬BodyComplete (.partialOrder n children body) p ∧ ¬Complete (.partialOrder n children body) p :=
  ⟨fun h => hi (h i), fun h => h.elim (fun h => h.2 hprogress) fun h => hi (h.2 i)⟩

theorem not_complete_choiceGraph {n : ℕ} {children : Fin n → PowlNode} (body : ChoiceBody)
    {p : Position} {i : Fin n} (hcursor : (p []).cursor = some i.val)
    (hi : ¬Complete (children i) (p.child i)) :
    ¬BodyComplete (.choiceGraph n children body) p ∧ ¬Complete (.choiceGraph n children body) p := by
  have hend : ¬((p []).cursor = some body.endIdx ∧ ChildComplete children p body.endIdx) := by
    rintro ⟨hend, hlt, hcomplete⟩
    obtain rfl : i = ⟨body.endIdx, hlt⟩ := Fin.ext (Option.some.inj (hcursor.symm.trans hend))
    exact hi hcomplete
  refine ⟨hend, fun h => h.elim (fun h => h.2 (Or.inl ?_)) fun h => hend ⟨h.2.1, h.2.2⟩⟩
  rw [hcursor]
  exact Option.some_ne_none _

/-- A step in a child of a partial order, if another child is not complete after it. -/
theorem fires_partialOrder_cons_iff {n : ℕ} {children : Fin n → PowlNode} {body : OrderBody}
    {q : Position} {i : ℕ} :
    Fires cap (.partialOrder n children body) p (i :: path) q ↔
      ∃ (hi : i < n) (q' : Position), RoundOpen cap body.frequency p ∧
        ¬Complete (children ⟨i, hi⟩) (p.child i) ∧
        (∀ e ∈ body.closure, e.dst = i → ChildComplete children p e.src) ∧
        Fires cap (children ⟨i, hi⟩) (p.child i) path q' ∧
        q = close (.partialOrder n children body) (p.graft i q') := by
  rw [fires_partialOrder_iff]
  constructor
  · rintro ⟨i, path, q', heq, hopen, hi, hpred, h, rfl⟩
    obtain ⟨rfl, rfl⟩ := List.cons.inj heq
    exact ⟨i.isLt, q', hopen, hi, hpred, h, rfl⟩
  · rintro ⟨hlt, q', hopen, hi, hpred, h, rfl⟩
    exact ⟨⟨i, hlt⟩, path, q', rfl, hopen, hi, hpred, h, rfl⟩

/-- Steps in two children of a partial order. -/
theorem diamond_of_branches {n : ℕ} {children : Fin n → PowlNode} {body : OrderBody} {a b : ℕ}
    (hne : a ≠ b) (h₁ : Fires cap (.partialOrder n children body) p (a :: path) p₁)
    (h₂ : Fires cap (.partialOrder n children body) p (b :: path') p₂) :
    Diamond cap (.partialOrder n children body) p₁ p₂ (a :: path) (b :: path') := by
  obtain ⟨ha, q₁, hopen, hca, hpa, hfa, rfl⟩ := fires_partialOrder_cons_iff.mp h₁
  obtain ⟨hb, q₂, -, hcb, hpb, hfb, rfl⟩ := fires_partialOrder_cons_iff.mp h₂
  -- what one step leaves to the other
  have hafter : ∀ {a b : ℕ} {q : Position} {path : NodePath} (ha : a < n) (hb : b < n), a ≠ b →
      ¬Complete (children ⟨b, hb⟩) (p.child b) → Fires cap (children ⟨a, ha⟩) (p.child a) path q →
        InProgress (p.graft a q) ∧ ¬Complete (children ⟨b, hb⟩) ((p.graft a q).child b) := by
    intro a b q path ha hb hne hcb hfa
    refine ⟨Or.inr ⟨a, ?_⟩, ?_⟩
    · rw [Trie.child_graft_self]
      exact hfa.touched
    · rwa [Trie.child_graft_of_ne _ _ hne.symm]
  have hpred : ∀ {a b : ℕ} {q : Position} (ha : a < n),
      ¬Complete (children ⟨a, ha⟩) (p.child a) →
        (∀ e ∈ body.closure, e.dst = b → ChildComplete children p e.src) →
          ∀ e ∈ body.closure, e.dst = b → ChildComplete children (p.graft a q) e.src := by
    intro a b q ha hca hpb e he hdst
    obtain ⟨hlt, hcomplete⟩ := hpb e he hdst
    have hsrc : e.src ≠ a := by
      rintro rfl
      exact hca hcomplete
    exact ⟨hlt, by rwa [Trie.child_graft_of_ne _ _ hsrc]⟩
  obtain ⟨hprogress₁, hcb'⟩ := hafter ha hb hne hcb hfa
  obtain ⟨hprogress₂, hca'⟩ := hafter hb ha hne.symm hca hfb
  obtain ⟨hbody₁, hcomplete₁⟩ := not_complete_partialOrder body hprogress₁ hcb'
  obtain ⟨hbody₂, hcomplete₂⟩ := not_complete_partialOrder body hprogress₂ hca'
  rw [close_of_not hbody₁, close_of_not hbody₂]
  refine ⟨hcomplete₁, hcomplete₂, _, fires_partialOrder_cons_iff.mpr ⟨hb, q₂,
    hopen.inProgress rfl hprogress₁, hcb', hpred ha hca hpb, ?_, rfl⟩,
    fires_partialOrder_cons_iff.mpr ⟨ha, q₁, hopen.inProgress rfl hprogress₂, hca',
      hpred hb hcb hpa, ?_, ?_⟩⟩
  · rwa [Trie.child_graft_of_ne _ _ hne.symm]
  · rwa [Trie.child_graft_of_ne _ _ hne]
  · rw [graft_comm p q₁ q₂ hne]

/-- Steps in one child of a partial order, which come together in it. -/
theorem Diamond.branch {n : ℕ} {children : Fin n → PowlNode} {body : OrderBody} {i : Fin n}
    {q₁ q₂ : Position} (h : Diamond cap (children i) q₁ q₂ path path')
    (hopen : RoundOpen cap body.frequency p) (hi : ¬Complete (children i) (p.child i))
    (hpred : ∀ e ∈ body.closure, e.dst = i → ChildComplete children p e.src)
    (htouched₁ : Touched q₁) (htouched₂ : Touched q₂) :
    Diamond cap (.partialOrder n children body)
      (close (.partialOrder n children body) (p.graft i q₁))
      (close (.partialOrder n children body) (p.graft i q₂)) (i.val :: path) (i.val :: path') := by
  obtain ⟨hleft, hright, q, hq₁, hq₂⟩ := h
  have hafter : ∀ {q' : Position} {path : NodePath}, ¬Complete (children i) q' → Touched q' →
      Fires cap (children i) q' path q →
        close (.partialOrder n children body) (p.graft i q') = p.graft i q' ∧
          ¬Complete (.partialOrder n children body) (p.graft i q') ∧
          Fires cap (.partialOrder n children body) (p.graft i q') (i.val :: path)
            (close (.partialOrder n children body) (p.graft i q)) := by
    intro q' path hcomplete htouched hfires
    have hprogress : InProgress (p.graft i q') := Or.inr ⟨i, by rwa [Trie.child_graft_self]⟩
    have hchild : ¬Complete (children i) ((p.graft i q').child i) := by
      rwa [Trie.child_graft_self]
    obtain ⟨hbody, hcomplete⟩ := not_complete_partialOrder body hprogress hchild
    refine ⟨close_of_not hbody, hcomplete, fires_partialOrder_cons_iff.mpr ⟨i.isLt, q,
      hopen.inProgress rfl hprogress, hchild, fun e he hdst => ?_, ?_, by rw [Trie.graft_graft]⟩⟩
    · obtain ⟨hlt, hsrc⟩ := hpred e he hdst
      have hne : e.src ≠ i := fun heq => hi (by
        obtain rfl : i = ⟨e.src, hlt⟩ := Fin.ext heq.symm
        exact hsrc)
      exact ⟨hlt, by rwa [Trie.child_graft_of_ne _ _ hne]⟩
    · rwa [Trie.child_graft_self]
  obtain ⟨hclose₁, hcomplete₁, hfires₁⟩ := hafter hleft htouched₁ hq₁
  obtain ⟨hclose₂, hcomplete₂, hfires₂⟩ := hafter hright htouched₂ hq₂
  rw [hclose₁, hclose₂]
  exact ⟨hcomplete₁, hcomplete₂, _, hfires₁, hfires₂⟩

/-- Steps in the child a choice graph is inside, which come together in it. -/
theorem Diamond.inside {n : ℕ} {children : Fin n → PowlNode} {body : ChoiceBody} {i : Fin n}
    {q₁ q₂ : Position} (h : Diamond cap (children i) q₁ q₂ path path')
    (hopen : RoundOpen cap body.frequency p) (hcursor : (p []).cursor = some i.val) :
    Diamond cap (.choiceGraph n children body)
      (close (.choiceGraph n children body) (p.graft i q₁))
      (close (.choiceGraph n children body) (p.graft i q₂)) (i.val :: path) (i.val :: path') := by
  obtain ⟨hleft, hright, q, hq₁, hq₂⟩ := h
  have hafter : ∀ {q' : Position} {path : NodePath}, ¬Complete (children i) q' →
      Fires cap (children i) q' path q →
        close (.choiceGraph n children body) (p.graft i q') = p.graft i q' ∧
          ¬Complete (.choiceGraph n children body) (p.graft i q') ∧
          Fires cap (.choiceGraph n children body) (p.graft i q') (i.val :: path)
            (close (.choiceGraph n children body) (p.graft i q)) := by
    intro q' path hcomplete hfires
    have hprogress : InProgress (p.graft i q') := by
      refine Or.inl ?_
      rw [Trie.graft_nil, hcursor]
      exact Option.some_ne_none _
    have hchild : ¬Complete (children i) ((p.graft i q').child i) := by
      rwa [Trie.child_graft_self]
    obtain ⟨hbody, hcomplete⟩ := not_complete_choiceGraph body (i := i)
      (p := p.graft i q') hcursor hchild
    refine ⟨close_of_not hbody, hcomplete, fires_choiceGraph_iff.mpr ⟨i, path, rfl,
      hopen.inProgress rfl hprogress, Or.inl ⟨q, hcursor, hchild, ?_, by rw [Trie.graft_graft]⟩⟩⟩
    rwa [Trie.child_graft_self]
  obtain ⟨hclose₁, hcomplete₁, hfires₁⟩ := hafter hleft hq₁
  obtain ⟨hclose₂, hcomplete₂, hfires₂⟩ := hafter hright hq₂
  rw [hclose₁, hclose₂]
  exact ⟨hcomplete₁, hcomplete₂, _, hfires₁, hfires₂⟩

/-- Two steps of concurrent leaves lead to one position in either order. -/
theorem Fires.diamond (hne : Concurrent node path path') (h₁ : Fires cap node p path p₁)
    (h₂ : Fires cap node p path' p₂) : Diamond cap node p₁ p₂ path path' := by
  obtain ⟨r, a, b, rest, rest', n, children, body, rfl, rfl, hne, hnode⟩ := hne
  induction r generalizing node p p₁ p₂ with
  | nil =>
    obtain rfl : node = .partialOrder n children body := Option.some.inj hnode
    exact diamond_of_branches hne h₁ h₂
  | cons k r ih =>
    cases node with
    | partialOrder n' children' body' =>
      obtain ⟨hk, q₁, hopen, hck, hpred, hf₁, rfl⟩ := fires_partialOrder_cons_iff.mp h₁
      obtain ⟨_, q₂, -, -, -, hf₂, rfl⟩ := fires_partialOrder_cons_iff.mp h₂
      have hnode' : nodeAt (children' ⟨k, hk⟩) r = some (.partialOrder n children body) := by
        simpa [nodeAt, hk] using hnode
      exact (ih hf₁ hf₂ hnode').branch (i := ⟨k, hk⟩) hopen hck hpred hf₁.touched hf₂.touched
    | choiceGraph n' children' body' =>
      obtain ⟨i, path, heq, hopen, hcases₁⟩ := fires_choiceGraph_iff.mp h₁
      obtain ⟨i', path', heq', -, hcases₂⟩ := fires_choiceGraph_iff.mp h₂
      obtain ⟨rfl, rfl⟩ := List.cons.inj heq
      obtain ⟨hi, rfl⟩ := List.cons.inj heq'
      obtain rfl : i = i' := Fin.ext hi
      have hnode' : nodeAt (children' i) r = some (.partialOrder n children body) := by
        simpa [nodeAt] using hnode
      -- a child that is not complete is not entered, and one that is entered is not inside
      have hnot : (p []).cursor = some i.val → ¬Complete (children' i) (p.child i) →
          ¬Candidate children' body' p i := by
        intro hcursor hci hcandidate
        simp only [Candidate, hcursor] at hcandidate
        exact hci hcandidate.1.2
      rcases hcases₁ with ⟨q₁, hcursor, hci, hf₁, rfl⟩ | ⟨q₁, hcandidate, hunder, hf₁, rfl⟩ <;>
        rcases hcases₂ with ⟨q₂, hcursor', hci', hf₂, rfl⟩ | ⟨q₂, hcandidate', -, hf₂, rfl⟩
      · exact (ih hf₁ hf₂ hnode').inside hopen hcursor
      · exact absurd hcandidate' (hnot hcursor hci)
      · exact absurd hcandidate (hnot hcursor' hci')
      · have hopen' : RoundOpen cap body'.frequency (select p i) :=
          ⟨hopen.lt_max, fun _ hidle => absurd (Or.inl (Option.some_ne_none _)) hidle⟩
        have hselected := (ih hf₁ hf₂ hnode').inside hopen' rfl
        simpa only [graft_select, List.cons_append] using hselected
    | start => simp [nodeAt, PowlNode.child?] at hnode
    | finish => simp [nodeAt, PowlNode.child?] at hnode
    | silent => simp [nodeAt, PowlNode.child?] at hnode
    | atom a => simp [nodeAt, PowlNode.child?] at hnode

end Diamond

/-! ## The marking -/

section Marking

theorem PathMap.ext {α : Type} {m m' : PathMap α} (h : ∀ p, m.get? p = m'.get? p) : m = m' := by
  obtain ⟨keys, get, hkeys⟩ := m
  obtain ⟨keys', get', hkeys'⟩ := m'
  obtain rfl : get = get' := funext h
  obtain rfl : keys = keys' := Finset.ext fun p => (hkeys p).trans (hkeys' p).symm
  rfl

/-- Every stored round count is positive. -/
def Marking.Counted (m : Marking) : Prop := ∀ p, m.rounds.get? p ≠ some 0

variable {K : PowlCanon} {model : PowlNode} {bound : ExecutionBound}
  {calls : List (NodePath × String)} {m m' : Marking} {path : NodePath} {contextSha256 : String}

theorem Marking.Counted.purged (h : m.Counted) (root : NodePath) (reset : Bool) :
    (m.purged root reset).Counted := by
  intro p
  simp only [Marking.purged, PathMap.get?_filter]
  split
  · exact h p
  · intro hsome
    cases hsome

theorem Marking.Counted.enter (h : m.Counted) (depth : ℕ) : (enter model path m depth).Counted := by
  unfold Powl.enter
  dsimp only
  split
  · split
    · exact h.purged _ _
    · exact h
  · exact h

theorem Marking.Counted.closeRound (h : m.Counted) (depth : ℕ) :
    (closeRound model path depth m).Counted := by
  unfold Powl.closeRound
  dsimp only
  split
  · exact h
  · split
    · intro p
      simp only [Marking.bank, Marking.visit, PathMap.get?_set]
      split
      · simp
      · exact h.purged _ _ p
    · exact h

theorem Marking.Counted.fire (h : m.Counted) (hfire : fire K model m path contextSha256 bound = .ok m') :
    m'.Counted := by
  obtain ⟨-, -, node, -, -, rfl⟩ := fire_eq_ok.mp hfire
  have hentered : ((List.range path.length).foldl (Powl.enter model path) m).Counted := by
    refine List.foldlRecOn (List.range path.length) (Powl.enter model path) h fun m' hm' d _ => ?_
    exact hm'.enter d
  unfold closeRounds
  refine List.foldrRecOn (List.range path.length) (Powl.closeRound model path) ?_ fun m' hm' d _ => ?_
  · exact hentered
  · exact hm'.closeRound d

theorem FireRun.counted (h : FireRun K model bound calls m) : m.Counted := by
  induction h with
  | nil => exact fun _ => nofun
  | snoc _ hfire ih => exact ih.fire hfire

/-- The position and the ledger make the marking. -/
theorem Marking.eq_of_position (hm : m.Counted) (hm' : m'.Counted)
    (hposition : m.position = m'.position) (hcompleted : m.completed = m'.completed)
    (hfires : m.fires = m'.fires) : m = m' := by
  have hcell (p : NodePath) : m.position p = m'.position p := congrFun hposition p
  obtain ⟨completed, cursor, visits, fires, completedPaths, rounds⟩ := m
  obtain ⟨completed', cursor', visits', fires', completedPaths', rounds'⟩ := m'
  simp only [Marking.position_apply, Cell.mk.injEq] at hcell
  obtain rfl : completed = completed' := hcompleted
  obtain rfl : fires = fires' := hfires
  obtain rfl : cursor = cursor' := PathMap.ext fun p => (hcell p).2.1
  obtain rfl : visits = visits' := funext fun p => (hcell p).2.2.2
  obtain rfl : completedPaths = completedPaths' := Finset.ext fun p => iff_of_eq (hcell p).1
  obtain rfl : rounds = rounds' := by
    refine PathMap.ext fun p => ?_
    have hp := (hcell p).2.2.1
    have hpos := hm p
    have hpos' := hm' p
    simp only [Marking.roundsAt] at hp hpos hpos'
    cases hget : rounds.get? p <;> cases hget' : rounds'.get? p <;> simp_all
  rfl

/-! ## Firing -/

/-- The activity digest of the node at a path. -/
def activityAt (K : PowlCanon) (model : PowlNode) (path : NodePath) : Option String :=
  (nodeAt model path).map K.activityOf

/-- What `fire` does to the ledger. -/
theorem completed_of_fire (h : fire K model m path contextSha256 bound = .ok m') :
    ∃ activity, activityAt K model path = some activity ∧ m'.fires = m.fires + 1 ∧
      m'.completed = insert ⟨activity, occurrences m activity, contextSha256⟩ m.completed := by
  obtain ⟨-, -, node, hnode, -, rfl⟩ := fire_eq_ok.mp h
  obtain ⟨hcompleted, hfires⟩ := completed_foldl_enter model path (List.range path.length) m
  refine ⟨K.activityOf node, by rw [activityAt, hnode]; rfl, ?_, ?_⟩
  · rw [(completed_closeRounds model path _).2]
    simp only [advance, hfires]
  · rw [(completed_closeRounds model path _).1]
    simp only [advance, occurrences, hcompleted]

theorem completedPaths_closeRounds_subset :
    (closeRounds model path m).completedPaths ⊆ m.completedPaths := by
  unfold closeRounds
  refine List.foldrRecOn (motive := fun m' => m'.completedPaths ⊆ m.completedPaths)
    (List.range path.length) (closeRound model path) (Finset.Subset.refl _) fun m' hm' d _ => ?_
  refine Finset.Subset.trans ?_ hm'
  unfold Powl.closeRound
  dsimp only
  split
  · exact Finset.Subset.refl _
  · split
    · exact Finset.filter_subset _ _
    · exact Finset.Subset.refl _

/-- A fire adds one path to the structural ledger at most. -/
theorem card_completedPaths_le (h : fire K model m path contextSha256 bound = .ok m') :
    m'.completedPaths.card ≤ m.completedPaths.card + 1 := by
  obtain ⟨-, -, node, -, -, rfl⟩ := fire_eq_ok.mp h
  refine (Finset.card_le_card completedPaths_closeRounds_subset).trans ?_
  refine (Finset.card_insert_le _ _).trans (Nat.succ_le_succ ?_)
  exact Finset.card_le_card (completedPaths_foldl_enter_subset _ _ _ _)

/-- So many fires are left before a bound is reached. -/
def Slack (bound : ExecutionBound) (m : Marking) (k : ℕ) : Prop :=
  (m.fires + k : ℤ) ≤ bound.maxActivityFires ∧
    (m.completedPaths.card + k : ℤ) ≤ bound.maxMarkingStates

/-- What is enabled fires, within the bounds. -/
theorem exists_fire (hslack : Slack bound m 1) (h : path ∈ enabled model m bound)
    (contextSha256 : String) : ∃ m', fire K model m path contextSha256 bound = .ok m' := by
  obtain ⟨q, hq⟩ := mem_enabled_iff.mp h
  obtain ⟨leaf, hleaf, -⟩ := hq.nodeAt_eq
  have hcard : ((List.range path.length).foldl (enter model path) m).completedPaths.card ≤
      m.completedPaths.card := Finset.card_le_card (completedPaths_foldl_enter_subset _ _ _ _)
  obtain ⟨hfires, hstates⟩ := hslack
  refine ⟨_, fire_eq_ok.mpr ⟨h, by exact_mod_cast hfires, leaf, hleaf, ?_, rfl⟩⟩
  push_cast at hstates
  omega

theorem Slack.fire {k : ℕ} (h : Slack bound m (k + 1))
    (hfire : fire K model m path contextSha256 bound = .ok m') : Slack bound m' k := by
  obtain ⟨-, -, hfires, -⟩ := completed_of_fire hfire
  have hcard := card_completedPaths_le hfire
  obtain ⟨hf, hs⟩ := h
  push_cast at hf hs
  exact ⟨by rw [hfires]; push_cast; omega, by omega⟩

theorem Slack.mono {k k' : ℕ} (h : Slack bound m k) (hle : k' ≤ k) : Slack bound m k' := by
  obtain ⟨hf, hs⟩ := h
  exact ⟨by omega, by omega⟩

/-- The ledger does not see the order of two fires of different activities, or of one activity in
one context. -/
theorem completed_comm {path path' : NodePath} {c c' : String} {m₁ m₂ m₁₂ m₂₁ : Marking}
    (h₁ : fire K model m path c bound = .ok m₁) (h₂ : fire K model m path' c' bound = .ok m₂)
    (h₁₂ : fire K model m₁ path' c' bound = .ok m₁₂) (h₂₁ : fire K model m₂ path c bound = .ok m₂₁)
    (hdistinct : activityAt K model path ≠ activityAt K model path' ∨ c = c') :
    m₁₂.completed = m₂₁.completed := by
  obtain ⟨activity, hactivity, -, hm₁⟩ := completed_of_fire h₁
  obtain ⟨activity', hactivity', -, hm₂⟩ := completed_of_fire h₂
  obtain ⟨_, hsame', -, hm₁₂⟩ := completed_of_fire h₁₂
  obtain ⟨_, hsame, -, hm₂₁⟩ := completed_of_fire h₂₁
  obtain rfl := Option.some.inj (hactivity.symm.trans hsame)
  obtain rfl := Option.some.inj (hactivity'.symm.trans hsame')
  by_cases hactivities : activity = activity'
  · subst hactivities
    have hcontext : c = c' := hdistinct.resolve_left fun h => h (hactivity.trans hactivity'.symm)
    subst hcontext
    have hsets : m₁.completed = m₂.completed := by rw [hm₁, hm₂]
    rw [hm₁₂, hm₂₁, occurrences, occurrences, hsets]
  · have hcount : occurrences m₁ activity' = occurrences m activity' := by
      rw [occurrences, hm₁, Finset.filter_insert, if_neg hactivities]
      rfl
    have hcount' : occurrences m₂ activity = occurrences m activity := by
      rw [occurrences, hm₂, Finset.filter_insert, if_neg (Ne.symm hactivities)]
      rfl
    rw [hm₁₂, hm₂₁, hcount, hcount', hm₁, hm₂, Finset.insert_comm]

/-- Concurrent leaves that are both enabled stay so when the other fires, and either order leads
to the same marking. -/
theorem independent_steps_commute {path path' : NodePath} {c c' : String}
    (hrun : FireRun K model bound calls m) (hslack : Slack bound m 2)
    (hp : path ∈ enabled model m bound) (hq : path' ∈ enabled model m bound)
    (hconcurrent : Concurrent model path path') :
    ∃ m₁ m₂ m₁₂ m₂₁, fire K model m path c bound = .ok m₁ ∧
      fire K model m path' c' bound = .ok m₂ ∧ path' ∈ enabled model m₁ bound ∧
      path ∈ enabled model m₂ bound ∧ fire K model m₁ path' c' bound = .ok m₁₂ ∧
      fire K model m₂ path c bound = .ok m₂₁ ∧
      (activityAt K model path ≠ activityAt K model path' ∨ c = c' → m₁₂ = m₂₁) := by
  obtain ⟨m₁, h₁⟩ := exists_fire (K := K) (hslack.mono (Nat.le_succ 1)) hp c
  obtain ⟨m₂, h₂⟩ := exists_fire (K := K) (hslack.mono (Nat.le_succ 1)) hq c'
  obtain ⟨-, -, q, hq₁, hq₂⟩ := (fires_of_fire h₁).diamond hconcurrent (fires_of_fire h₂)
  have hp₁ : path' ∈ enabled model m₁ bound := mem_enabled_iff.mpr ⟨q, hq₁⟩
  have hp₂ : path ∈ enabled model m₂ bound := mem_enabled_iff.mpr ⟨q, hq₂⟩
  obtain ⟨m₁₂, h₁₂⟩ := exists_fire (K := K) (hslack.fire h₁) hp₁ c'
  obtain ⟨m₂₁, h₂₁⟩ := exists_fire (K := K) (hslack.fire h₂) hp₂ c
  refine ⟨m₁, m₂, m₁₂, m₂₁, h₁, h₂, hp₁, hp₂, h₁₂, h₂₁, fun hdistinct => ?_⟩
  have hposition : m₁₂.position = m₂₁.position := by
    rw [(fires_of_fire h₁₂).eq_stepAt, ← hq₁.eq_stepAt, (fires_of_fire h₂₁).eq_stepAt,
      ← hq₂.eq_stepAt]
  obtain ⟨-, -, hf₁, -⟩ := completed_of_fire h₁
  obtain ⟨-, -, hf₂, -⟩ := completed_of_fire h₂
  obtain ⟨-, -, hf₁₂, -⟩ := completed_of_fire h₁₂
  obtain ⟨-, -, hf₂₁, -⟩ := completed_of_fire h₂₁
  refine Marking.eq_of_position (hrun.snoc h₁ |>.snoc h₁₂).counted (hrun.snoc h₂ |>.snoc h₂₁).counted
    hposition (completed_comm h₁ h₂ h₁₂ h₂₁ hdistinct) ?_
  rw [hf₁₂, hf₂₁, hf₁, hf₂]

/-- Two silent steps side by side. -/
def silentPair : PowlNode := .partialOrder 2 (fun _ => .silent) ⟨∅, ∅, once⟩

theorem independent_steps_commute_pair : ∃ m₁ m₂ m₁₂ m₂₁,
    fire .reference silentPair initialMarking [0] "" defaultBound = .ok m₁ ∧
      fire .reference silentPair initialMarking [1] "" defaultBound = .ok m₂ ∧
      [1] ∈ enabled silentPair m₁ defaultBound ∧ [0] ∈ enabled silentPair m₂ defaultBound ∧
      fire .reference silentPair m₁ [1] "" defaultBound = .ok m₁₂ ∧
      fire .reference silentPair m₂ [0] "" defaultBound = .ok m₂₁ ∧
      (activityAt .reference silentPair [0] ≠ activityAt .reference silentPair [1] ∨ "" = "" →
        m₁₂ = m₂₁) :=
  independent_steps_commute .nil ⟨by decide, by decide⟩ (by decide +kernel) (by decide +kernel)
    ⟨[], 0, 1, [], [], 2, _, _, rfl, rfl, by decide, rfl⟩

end Marking

end GymAct.Powl
