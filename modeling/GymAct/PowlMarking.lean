import GymAct.PowlSteps

/-!
# What a marking counts

`Everywhere` says of every cell of a position what its own node allows. A law of cells that
survives clearing, advancing a leaf, entering a child and banking a round survives every step
(`Fires.everywhere`).

`marking_accounting` : the identity ledger, the structural ledger and the counters of every
reachable marking agree with the model and its bound.
-/

namespace GymAct.Powl

open Position

/-! ## Laws of cells -/

/-- A law of every cell and the node at its path. -/
def Everywhere (law : Option PowlNode → Cell → Prop) (node : PowlNode) (p : Position) : Prop :=
  ∀ r, law (nodeAt node r) (p r)

/-- What makes a law of cells an invariant of steps at a visit cap. -/
structure CellLaw (cap : Option ℤ) (law : Option PowlNode → Cell → Prop) : Prop where
  clear : ∀ {node? c}, law node? c → law node? c.clear
  mark : ∀ {node c}, node.isLeaf = true → law (some node) c → law (some node) { c with done := True }
  select : ∀ {n children body c} (i : ℕ), Under cap (c.visits i) →
    law (some (.choiceGraph n children body)) c →
      law (some (.choiceGraph n children body)) ({ c with cursor := some i }.visit i)
  bank : ∀ {node frequency c}, node.frequency? = some frequency →
    (∀ max ∈ frequency.max, c.rounds < max) → law (some node) c →
      law (some node) ({ c.clear with rounds := c.rounds + 1 }.visit (-1))

section Everywhere

variable {cap : Option ℤ} {law : Option PowlNode → Cell → Prop} {node sub : PowlNode}
  {p q : Position}

theorem Everywhere.child {i : ℕ} (h : Everywhere law node p) (hchild : node.child? i = some sub) :
    Everywhere law sub (p.child i) := fun r => by
  simpa [nodeAt, hchild] using h (i :: r)

theorem Everywhere.graft {i : ℕ} (h : Everywhere law node p) (hchild : node.child? i = some sub)
    (hq : Everywhere law sub q) : Everywhere law node (p.graft i q)
  | [] => h []
  | j :: r => by
    by_cases hj : j = i
    · subst hj
      simpa [nodeAt, hchild, Trie.graft] using hq r
    · simpa [Trie.graft, hj] using h (j :: r)

theorem Everywhere.relabel (h : Everywhere law node p) {c : Cell} (hc : law (some node) c) :
    Everywhere law node (p.relabel c)
  | [] => hc
  | j :: r => h (j :: r)

theorem Everywhere.clear (hlaw : CellLaw cap law) (h : Everywhere law node p) :
    Everywhere law node (Position.clear p) := fun r => hlaw.clear (h r)

theorem Everywhere.close (hlaw : CellLaw cap law) {frequency : Frequency}
    (hfrequency : node.frequency? = some frequency)
    (hmax : ∀ max ∈ frequency.max, (p []).rounds < max) (h : Everywhere law node p) :
    Everywhere law node (close node p) := by
  unfold Powl.close
  split
  · exact (h.clear hlaw).relabel (hlaw.bank hfrequency hmax (h []))
  · exact h

/-- A law of cells is an invariant of steps. -/
theorem Fires.everywhere {r : NodePath} (hlaw : CellLaw cap law) (h : Fires cap node p r q)
    (hp : Everywhere law node p) : Everywhere law node q := by
  induction h with
  | leaf hleaf => exact hp.relabel (hlaw.mark hleaf (hp []))
  | branch i hopen _ _ _ ih =>
    have hq := ih (hp.child (by simp))
    exact (hp.graft (by simp) hq).close hlaw rfl hopen.lt_max
  | inside i hopen _ _ _ ih =>
    have hq := ih (hp.child (by simp))
    exact (hp.graft (by simp) hq).close hlaw rfl hopen.lt_max
  | enter i hopen _ hunder _ ih =>
    have hq := ih ((hp.child (by simp)).clear hlaw)
    have hgraft := hp.graft (i := i.val) (by simp) hq
    have hselect := hgraft.relabel (hlaw.select i hunder (hp []))
    exact hselect.close hlaw rfl hopen.lt_max

end Everywhere

/-- Visits are never taken back. -/
theorem visits_le_close (node : PowlNode) (p : Position) (r : NodePath) (c : ℤ) :
    (p r).visits c ≤ (close node p r).visits c := by
  unfold close
  split
  · cases r with
    | nil => simp [banked, Cell.visit, Cell.clear]
    | cons i r => simp [banked, Trie.relabel, Position.clear, Cell.clear]
  · exact le_rfl

theorem visits_le_select (p : Position) (i : ℕ) (r : NodePath) (c : ℤ) :
    (p r).visits c ≤ (Position.select p i r).visits c := by
  cases r with
  | nil => simp [Position.select, Cell.visit]
  | cons j r => exact le_rfl

theorem visits_le_graft {p q : Position} {i : ℕ}
    (h : ∀ r c, ((p.child i) r).visits c ≤ (q r).visits c) (r : NodePath) (c : ℤ) :
    (p r).visits c ≤ (p.graft i q r).visits c := by
  cases r with
  | nil => exact le_rfl
  | cons j r =>
    by_cases hj : j = i
    · subst hj
      simpa [Trie.graft] using h r c
    · simp [Trie.graft, hj]

theorem Fires.visits_le {cap : Option ℤ} {node : PowlNode} {p q : Position} {path : NodePath}
    (h : Fires cap node p path q) (r : NodePath) (c : ℤ) : (p r).visits c ≤ (q r).visits c := by
  induction h generalizing r c with
  | leaf => cases r <;> exact le_rfl
  | branch i _ _ _ _ ih | inside i _ _ _ _ ih =>
    exact (visits_le_graft ih r c).trans (visits_le_close _ _ r c)
  | enter i _ _ _ _ ih =>
    refine (visits_le_graft (fun r c => ?_) r c).trans
      ((visits_le_select _ i r c).trans (visits_le_close _ _ r c))
    exact ih r c

/-! ## The structural ledger -/

/-- What the cell of a node may hold, at a cap on the visits of a child. -/
structure CellSound (cap : ℤ) (node? : Option PowlNode) (c : Cell) : Prop where
  done : c.done → ∃ leaf, node? = some leaf ∧ leaf.isLeaf = true
  cursor : c.cursor ≠ none → ∃ n children body, node? = some (.choiceGraph n children body)
  rounds : ∀ node ∈ node?, ∀ frequency ∈ node.frequency?, ∀ max ∈ frequency.max, c.rounds ≤ max
  visits : ∀ i : ℤ, 0 ≤ i → 0 < c.visits i → (c.visits i : ℤ) ≤ cap

theorem cellSound_law (cap : ℤ) : CellLaw (some cap) (CellSound cap) where
  clear := fun {_ c} h => ⟨False.elim, fun hne => absurd rfl hne,
    fun _ _ _ _ _ _ => Nat.zero_le _, h.visits⟩
  mark := fun {node c} hleaf h => ⟨fun _ => ⟨node, rfl, hleaf⟩, h.cursor, h.rounds, h.visits⟩
  select := by
    intro n children body c i hunder h
    refine ⟨h.done, fun _ => ⟨n, children, body, rfl⟩, h.rounds, fun j hj hpos => ?_⟩
    by_cases hij : j = i
    · have hlt := hunder cap rfl
      simp only [Cell.visit, hij, if_true]
      omega
    · simp only [Cell.visit, hij, if_false, Nat.add_zero] at hpos ⊢
      exact h.visits j hj hpos
  bank := by
    intro node frequency c hfrequency hmax h
    refine ⟨False.elim, fun hne => absurd rfl hne, ?_, fun i hi hpos => ?_⟩
    · rintro _ ⟨⟩ f hf max hm
      obtain rfl : frequency = f := by simpa [hfrequency] using hf
      exact hmax max hm
    · have hne : i ≠ -1 := by omega
      simp only [Cell.visit, Cell.clear, hne, if_false, Nat.add_zero] at hpos ⊢
      exact h.visits i hi hpos

theorem everywhere_initial (cap : ℤ) (model : PowlNode) :
    Everywhere (CellSound cap) model initialMarking.position := fun r =>
  ⟨by simp [initialMarking], by simp [initialMarking],
    fun _ _ _ _ _ _ => by simp [initialMarking, Marking.roundsAt], by simp [initialMarking]⟩

section Run

variable {K : PowlCanon} {model : PowlNode} {bound : ExecutionBound}
  {calls : List (NodePath × String)} {m m' : Marking} {path : NodePath} {contextSha256 : String}

theorem FireRun.everywhere (h : FireRun K model bound calls m) :
    Everywhere (CellSound bound.maxNodeVisits) model m.position := by
  induction h with
  | nil => exact everywhere_initial _ model
  | snoc _ hfire ih => exact (fires_of_fire hfire).everywhere (cellSound_law _) ih

theorem visits_le_of_fire (h : fire K model m path contextSha256 bound = .ok m') (p : NodePath)
    (c : ℤ) : m.visits p c ≤ m'.visits p c :=
  (fires_of_fire h).visits_le p c

/-! ## The identity ledger -/

/-- The occurrences of every activity are numbered from zero, and each is a fire. -/
structure Numbered (m : Marking) : Prop where
  fires : m.fires = m.completed.card
  indices : ∀ activity, (m.completed.filter fun k => k.activitySha256 = activity).image
    OccurrenceKey.occurrenceIndex = Finset.range (occurrences m activity)

theorem completed_closeRounds (model : PowlNode) (path : NodePath) (m : Marking) :
    (closeRounds model path m).completed = m.completed ∧
      (closeRounds model path m).fires = m.fires := by
  unfold closeRounds
  induction List.range path.length with
  | nil => exact ⟨rfl, rfl⟩
  | cons d l ih =>
    rw [List.foldr_cons, closeRound]
    split
    · exact ih
    · split
      · exact ih
      · exact ih

theorem completed_foldl_enter (model : PowlNode) (path : NodePath) (l : List ℕ) (m : Marking) :
    (l.foldl (enter model path) m).completed = m.completed ∧
      (l.foldl (enter model path) m).fires = m.fires := by
  induction l generalizing m with
  | nil => exact ⟨rfl, rfl⟩
  | cons d l ih =>
    have hd : (enter model path m d).completed = m.completed ∧
        (enter model path m d).fires = m.fires := by
      simp only [enter]
      split
      · split <;> exact ⟨rfl, rfl⟩
      · exact ⟨rfl, rfl⟩
    rw [List.foldl_cons]
    exact ⟨(ih _).1.trans hd.1, (ih _).2.trans hd.2⟩

/-- Entering forgets completed leaves only. -/
theorem completedPaths_enter_subset (model : PowlNode) (path : NodePath) (m : Marking) (depth : ℕ) :
    (enter model path m depth).completedPaths ⊆ m.completedPaths := by
  simp only [enter]
  split
  · split
    · exact Finset.filter_subset _ _
    · exact Finset.Subset.refl _
  · exact Finset.Subset.refl _

theorem completedPaths_foldl_enter_subset (model : PowlNode) (path : NodePath) :
    ∀ (depths : List ℕ) (m : Marking),
      (depths.foldl (enter model path) m).completedPaths ⊆ m.completedPaths
  | [], _ => Finset.Subset.refl _
  | depth :: depths, m => (completedPaths_foldl_enter_subset model path depths _).trans
      (completedPaths_enter_subset model path m depth)

/-- A new occurrence is numbered after the ones of its activity. -/
theorem Numbered.advance (h : Numbered m) (path : NodePath) (activity contextSha256 : String) :
    Numbered (advance m path activity contextSha256) := by
  have hfresh : (⟨activity, occurrences m activity, contextSha256⟩ : OccurrenceKey) ∉ m.completed := by
    intro hmem
    have hfilter : (⟨activity, occurrences m activity, contextSha256⟩ : OccurrenceKey) ∈
        m.completed.filter fun k => k.activitySha256 = activity :=
      Finset.mem_filter.mpr ⟨hmem, rfl⟩
    have himage := Finset.mem_image_of_mem OccurrenceKey.occurrenceIndex hfilter
    rw [h.indices activity] at himage
    exact (Finset.mem_range.mp himage).false
  constructor
  · simp [Powl.advance, Finset.card_insert_of_notMem hfresh, h.fires]
  · intro other
    by_cases hother : activity = other
    · subst hother
      have hset : ((Powl.advance m path activity contextSha256).completed.filter
          fun k => k.activitySha256 = activity) =
          insert ⟨activity, occurrences m activity, contextSha256⟩
            (m.completed.filter fun k => k.activitySha256 = activity) := by
        simp [Powl.advance, Finset.filter_insert]
      have hcount : occurrences (Powl.advance m path activity contextSha256) activity =
          occurrences m activity + 1 := by
        rw [occurrences, hset, Finset.card_insert_of_notMem fun hmem =>
          hfresh (Finset.mem_filter.mp hmem).1]
        rfl
      rw [hset, hcount, Finset.image_insert, h.indices activity, Finset.range_add_one]
    · simpa [occurrences, Powl.advance, Finset.filter_insert, hother] using h.indices other

theorem Numbered.fire (h : Numbered m) (hfire : fire K model m path contextSha256 bound = .ok m') :
    Numbered m' := by
  obtain ⟨-, -, node, -, -, rfl⟩ := fire_eq_ok.mp hfire
  have hcongr : ∀ {a b : Marking}, a.completed = b.completed ∧ a.fires = b.fires → Numbered b →
      Numbered a := by
    rintro a b ⟨hcompleted, hfires⟩ ⟨hb, hindices⟩
    refine ⟨by rw [hfires, hcompleted, hb], fun activity => ?_⟩
    simpa only [occurrences, hcompleted] using hindices activity
  refine hcongr (completed_closeRounds model path _) (Numbered.advance ?_ _ _ _)
  exact hcongr (completed_foldl_enter model path _ m) h

theorem FireRun.numbered (h : FireRun K model bound calls m) : Numbered m := by
  induction h with
  | nil => exact ⟨rfl, fun _ => rfl⟩
  | snoc _ hfire ih => exact ih.fire hfire

end Run

/-! ## Reachable markings -/

/-- The ledgers and counters of a marking agree with the model and its bound. -/
structure Accounting (K : PowlCanon) (model : PowlNode) (bound : ExecutionBound) (m : Marking) :
    Prop where
  fires : m.fires = m.completed.card
  indices : ∀ activity, (m.completed.filter fun k => k.activitySha256 = activity).image
    OccurrenceKey.occurrenceIndex = Finset.range (occurrences m activity)
  completedPaths : ∀ p ∈ m.completedPaths, ∃ leaf, nodeAt model p = some leaf ∧ leaf.isLeaf = true
  cursor : ∀ p ∈ m.cursor.keys, ∃ n children body,
    nodeAt model p = some (.choiceGraph n children body)
  rounds : ∀ p node frequency, nodeAt model p = some node → node.frequency? = some frequency →
    ∀ max ∈ frequency.max, m.roundsAt p ≤ max
  visits_le_of_fire : ∀ path contextSha256 m', fire K model m path contextSha256 bound = .ok m' →
    ∀ p c, m.visits p c ≤ m'.visits p c
  visits : ∀ p (c : ℤ), 0 ≤ c → 0 < m.visits p c → (m.visits p c : ℤ) ≤ bound.maxNodeVisits

theorem marking_accounting {K : PowlCanon} {model : PowlNode} {bound : ExecutionBound}
    {calls : List (NodePath × String)} {m : Marking} (h : FireRun K model bound calls m) :
    Accounting K model bound m where
  fires := h.numbered.fires
  indices := h.numbered.indices
  completedPaths := fun p hp => (h.everywhere p).done hp
  cursor := fun p hp => (h.everywhere p).cursor (PathMap.mem_keys_iff.mp hp)
  rounds := fun p node frequency hnode hfrequency =>
    (h.everywhere p).rounds node hnode frequency hfrequency
  visits_le_of_fire := fun _ _ _ hfire => Powl.visits_le_of_fire hfire
  visits := fun p => (h.everywhere p).visits

/-- A choice graph with a loop at its middle child. -/
def loopModel : PowlNode :=
  .choiceGraph 3 ![.start, .silent, .finish]
    { edges := {⟨0, 1, none⟩, ⟨1, 1, none⟩, ⟨1, 2, none⟩}, startIdx := 0, endIdx := 2 }

theorem marking_accounting_loop : ∃ m,
    fireAll .reference loopModel defaultBound [([0], ""), ([1], ""), ([1], "again"), ([2], "")]
      initialMarking = .ok m ∧ Accounting .reference loopModel defaultBound m := by
  obtain ⟨m, hm⟩ := Fallible.exists_eq_ok_of_isOk (x := fireAll .reference loopModel defaultBound
    [([0], ""), ([1], ""), ([1], "again"), ([2], "")] initialMarking) (by decide +kernel)
  exact ⟨m, hm, marking_accounting (fireRun_iff.mpr hm)⟩

end GymAct.Powl
