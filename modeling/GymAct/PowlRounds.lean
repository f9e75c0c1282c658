import GymAct.PowlConcurrency

/-!
# Running a node to its end

`Leads` is a sequence of steps of one node between which it is never complete, so that it is
also a sequence of steps of its parent (`Leads.branch`, `Leads.enter`). A partial order is run
child by child, along its order (`leads_along`); a choice graph is run from its start to its end
(`runsRound_of_walk`). A node runs as many rounds as its frequency asks for at least
(`RunsRound.completes`).

`completes_of_finishes`, `completes_of_passes` : what finishes can be run to its end, through any
composite that lies on such a run.
-/

namespace GymAct.Powl

open Position

/-! ## Sequences of steps -/

/-- Leaves of the node fire one after another, and it is not complete before the last. -/
inductive Leads (node : PowlNode) : Position → List NodePath → Position → Prop
  | last {p q : Position} {path : NodePath} (h : Fires none node p path q) : Leads node p [path] q
  | cons {p p' q : Position} {path : NodePath} {word : List NodePath}
    (h : Fires none node p path p') (hp : ¬Complete node p') (hrest : Leads node p' word q) :
    Leads node p (path :: word) q

/-- A round of the composite at each of these paths is banked by now. -/
def Banked (S : Set NodePath) (p : Position) : Prop := ∀ r ∈ S, 0 < (p r).visits (-1)

/-- From any fresh position the leaves of the word fire one after another, and the node is
complete at the end. -/
def Completes (node : PowlNode) (word : List NodePath) (S : Set NodePath) : Prop :=
  ∀ p, ¬Touched p → ∃ q, Leads node p word q ∧ Complete node q ∧ Banked S q

/-- The same for one round of a composite, from any position between two rounds. -/
def RunsRound (node : PowlNode) (word : List NodePath) (S : Set NodePath) : Prop :=
  ∀ p, ¬InProgress p → (∀ frequency ∈ node.frequency?, ∀ max ∈ frequency.max, (p []).rounds < max) →
    ∃ q, Leads node p word q ∧ ¬InProgress q ∧ (q []).rounds = (p []).rounds + 1 ∧ Banked S q

section Leads

variable {node : PowlNode} {p p' q : Position} {word word' : List NodePath} {S : Set NodePath}

theorem Leads.append (h : Leads node p word p') (hp : ¬Complete node p')
    (h' : Leads node p' word' q) : Leads node p (word ++ word') q := by
  induction h with
  | last h => exact .cons h hp h'
  | cons h hmid _ ih => exact .cons h hmid (ih hp h')

theorem Leads.visits_le (h : Leads node p word q) (r : NodePath) (c : ℤ) :
    (p r).visits c ≤ (q r).visits c := by
  induction h with
  | last h => exact h.visits_le r c
  | cons h _ _ ih => exact (h.visits_le r c).trans ih

theorem Banked.mono (h : Banked S p) (hle : ∀ r c, (p r).visits c ≤ (q r).visits c) : Banked S q :=
  fun r hr => (h r hr).trans_le (hle r (-1))

theorem Banked.leads (h : Banked S p) (hleads : Leads node p word q) : Banked S q :=
  h.mono hleads.visits_le

theorem Leads.touched (h : Leads node p word q) : Touched q := by
  induction h with
  | last h => exact h.touched
  | cons _ _ _ ih => exact ih

/-- A leaf completes by firing. -/
theorem completes_of_isLeaf (hleaf : node.isLeaf = true) : Completes node [[]] ∅ := fun p hp =>
  ⟨p.mark, .last (.leaf hleaf (cell_of_not_touched hp).1), (complete_of_isLeaf hleaf _).mpr trivial,
    fun _ hr => hr.elim⟩

end Leads

/-! ## Partial orders -/

section PartialOrder

variable {n : ℕ} {children : Fin n → PowlNode} {body : OrderBody} {p : Position}
  {word : List NodePath}

/-- A sequence of steps of a child is one of its partial order. -/
theorem Leads.branch {i : Fin n} {c c' : Position} (h : Leads (children i) c word c')
    (hc : p.child i = c) (hmax : ∀ max ∈ body.frequency.max, (p []).rounds < max)
    (hi : ¬Complete (children i) c)
    (hpred : ∀ e ∈ body.closure, e.dst = i → ChildComplete children p e.src) :
    Leads (.partialOrder n children body) p (word.map (i.val :: ·))
      (close (.partialOrder n children body) (p.graft i c')) := by
  induction h generalizing p with
  | @last c c' path h =>
    subst hc
    exact .last (.branch i ⟨hmax, fun _ _ => nofun⟩ hi hpred h)
  | @cons c c₁ c' path word h hc₁ _ ih =>
    subst hc
    have hstep : Fires none (.partialOrder n children body) p (i.val :: path) _ :=
      .branch i ⟨hmax, fun _ _ => nofun⟩ hi hpred h
    have hprogress : InProgress (p.graft i c₁) := by
      refine Or.inr ⟨i, ?_⟩
      rw [Trie.child_graft_self]
      exact h.touched
    have hchild : ¬Complete (children i) ((p.graft i c₁).child i) := by
      rwa [Trie.child_graft_self]
    obtain ⟨hbody, hcomplete⟩ := not_complete_partialOrder body hprogress hchild
    rw [close_of_not hbody] at hstep
    refine .cons hstep hcomplete ?_
    have hrest := ih (p := p.graft i c₁) (Trie.child_graft_self _ _ _) hmax hc₁ fun e he hdst => ?_
    · rwa [Trie.graft_graft] at hrest
    · obtain ⟨hlt, hsrc⟩ := hpred e he hdst
      have hne : e.src ≠ i := fun heq => hi (by
        obtain rfl : i = ⟨e.src, hlt⟩ := Fin.ext heq.symm
        exact hsrc)
      exact ⟨hlt, by rwa [Trie.child_graft_of_ne _ _ hne]⟩

/-- A partial order closes its round when its children, which are run one after another along its
order, are all complete. -/
theorem leads_along (hbody : body.WellFormed n) {words : Fin n → List NodePath}
    {S : Fin n → Set NodePath} {l : List (Fin n)} (hl : l ≠ [])
    (hmax : ∀ max ∈ body.frequency.max, (p []).rounds < max)
    (hmem : ∀ i, i ∈ l ↔ ¬Complete (children i) (p.child i))
    (hfresh : ∀ i ∈ l, ¬Touched (p.child i)) (hnodup : l.Nodup)
    (horder : l.Pairwise fun i j => ⟨j.val, i.val⟩ ∉ body.closure)
    (hrun : ∀ i ∈ l, Completes (children i) (words i) (S i)) :
    ∃ q, Leads (.partialOrder n children body) p (l.flatMap fun i => (words i).map (i.val :: ·)) q ∧
      ¬InProgress q ∧ (q []).rounds = (p []).rounds + 1 ∧ 0 < (q []).visits (-1) ∧
      ∀ i ∈ l, Banked (S i) (q.child i) := by
  induction l generalizing p with
  | nil => exact absurd rfl hl
  | cons i l ih =>
    obtain ⟨hnot, hnodup⟩ := List.nodup_cons.mp hnodup
    obtain ⟨hfirst, horder⟩ := List.pairwise_cons.mp horder
    obtain ⟨c, hleads, hcomplete, hbanked⟩ := hrun i List.mem_cons_self _
      (hfresh i List.mem_cons_self)
    -- what comes before `i` is complete : it is not `i`, and it is not run after `i`
    have hpred : ∀ e ∈ body.closure, e.dst = i → ChildComplete children p e.src := by
      rintro ⟨src, _⟩ he rfl
      have hlt := (hbody.bounded _ he).1
      refine ⟨hlt, ?_⟩
      by_contra hsrc
      rcases List.mem_cons.mp ((hmem ⟨src, hlt⟩).mpr hsrc) with heq | hlater
      · exact hbody.irrefl src (by simpa [← heq] using he)
      · exact hfirst _ hlater he
    have hstep := hleads.branch (p := p) rfl hmax ((hmem i).mp List.mem_cons_self) hpred
    have hchild : ∀ j : Fin n, j ≠ i → (p.graft i c).child j = p.child j := fun j hj =>
      Trie.child_graft_of_ne _ _ (Fin.val_ne_of_ne hj)
    rw [List.flatMap_cons]
    cases l with
    | nil =>
      have hall : BodyComplete (.partialOrder n children body) (p.graft i c) := by
        intro j
        by_cases hj : j = i
        · subst hj
          rwa [Trie.child_graft_self]
        · rw [hchild j hj]
          by_contra hc
          exact hj (List.mem_singleton.mp ((hmem j).mpr hc))
      rw [close, if_pos hall] at hstep
      rw [List.flatMap_nil, List.append_nil]
      refine ⟨_, hstep, not_inProgress_banked _, rfl, Nat.succ_pos _, fun j hj => ?_⟩
      obtain rfl := List.mem_singleton.mp hj
      refine hbanked.mono fun r v => ?_
      simp [banked, Trie.relabel, Position.clear, Cell.clear, Trie.graft]
    | cons j l =>
      have hne : ∀ k ∈ j :: l, k ≠ i := fun k hk heq => hnot (heq ▸ hk)
      have hopen : ¬Complete (children j) ((p.graft i c).child j) := by
        rw [hchild j (hne j List.mem_cons_self)]
        exact (hmem j).mp (List.mem_cons_of_mem _ List.mem_cons_self)
      have hprogress : InProgress (p.graft i c) := by
        refine Or.inr ⟨i, ?_⟩
        rw [Trie.child_graft_self]
        exact hleads.touched
      obtain ⟨hclosed, hnode⟩ := not_complete_partialOrder body hprogress hopen
      rw [close_of_not hclosed] at hstep
      have hmem' : ∀ k, k ∈ j :: l ↔ ¬Complete (children k) ((p.graft i c).child k) := by
        intro k
        by_cases hk : k = i
        · subst hk
          rw [Trie.child_graft_self]
          exact iff_of_false hnot (not_not.mpr hcomplete)
        · rw [hchild k hk, ← hmem k]
          exact ⟨List.mem_cons_of_mem _, fun h => (List.mem_cons.mp h).resolve_left hk⟩
      have hfresh' : ∀ k ∈ j :: l, ¬Touched ((p.graft i c).child k) := by
        intro k hk
        rw [hchild k (hne k hk)]
        exact hfresh k (List.mem_cons_of_mem _ hk)
      obtain ⟨q, hrest, hidle, hrounds, hvisits, hbanked'⟩ := ih (p := p.graft i c)
        (List.cons_ne_nil _ _) hmax hmem' hfresh' hnodup horder fun k hk => hrun k (List.mem_cons_of_mem _ hk)
      refine ⟨q, hstep.append hnode hrest, hidle, hrounds, hvisits, fun k hk => ?_⟩
      rcases List.mem_cons.mp hk with rfl | hk
      · refine hbanked.mono fun r v => ?_
        have hle := hrest.visits_le (k.val :: r) v
        simpa [Trie.graft] using hle
      · exact hbanked' k hk

/-- Some of the children of a partial order, listed along its order. -/
theorem exists_orderly (hbody : body.WellFormed n) (P : Fin n → Prop) : ∃ l : List (Fin n),
    l.Nodup ∧ (∀ i, i ∈ l ↔ P i) ∧ l.Pairwise fun i j => ⟨j.val, i.val⟩ ∉ body.closure := by
  classical
  suffices h : ∀ s : Finset (Fin n), ∃ l : List (Fin n), l.Nodup ∧ (∀ i, i ∈ l ↔ i ∈ s) ∧
      l.Pairwise fun i j => ⟨j.val, i.val⟩ ∉ body.closure by
    obtain ⟨l, hnodup, hmem, horder⟩ := h (Finset.univ.filter P)
    exact ⟨l, hnodup, fun i => by simp [hmem], horder⟩
  intro s
  induction s using Finset.strongInduction with
  | H s ih =>
    rcases s.eq_empty_or_nonempty with rfl | hne
    · exact ⟨[], List.nodup_nil, by simp, List.Pairwise.nil⟩
    · obtain ⟨i, hi, hfirst⟩ := exists_first hbody hne
      obtain ⟨l, hnodup, hmem, horder⟩ := ih (s.erase i) (Finset.erase_ssubset hi)
      refine ⟨i :: l, List.nodup_cons.mpr ⟨by simp [hmem], hnodup⟩, fun j => ?_,
        List.pairwise_cons.mpr ⟨fun j hj hedge => ?_, horder⟩⟩
      · rw [List.mem_cons, hmem, Finset.mem_erase]
        by_cases hj : j = i
        · simp [hj, hi]
        · simp [hj]
      · exact hfirst _ hedge rfl j.isLt (Finset.mem_of_mem_erase ((hmem j).mp hj))

/-- A partial order runs a round of the children it does not pass over, listed along its order. -/
theorem runsRound_along (hbody : body.WellFormed n) {words : Fin n → List NodePath}
    {S : Fin n → Set NodePath} {l : List (Fin n)} (hl : l ≠ []) (hnodup : l.Nodup)
    (hmem : ∀ i, i ∈ l ↔ skips (children i) = false)
    (horder : l.Pairwise fun i j => ⟨j.val, i.val⟩ ∉ body.closure)
    (hrun : ∀ i ∈ l, Completes (children i) (words i) (S i)) :
    RunsRound (.partialOrder n children body) (l.flatMap fun i => (words i).map (i.val :: ·))
      {r | r = [] ∨ ∃ i ∈ l, ∃ r' ∈ S i, r = i.val :: r'} := by
  intro p hidle hmax
  have hfresh : ∀ i : Fin n, ¬Touched (p.child i) := fun i h => hidle (Or.inr ⟨i, h⟩)
  have hopen : ∀ i, i ∈ l ↔ ¬Complete (children i) (p.child i) := fun i => by
    rw [hmem, complete_iff_skips (hfresh i), Bool.not_eq_true]
  obtain ⟨q, hleads, hidle', hrounds, hvisits, hbanked⟩ := leads_along hbody hl (hmax _ rfl) hopen
    (fun i _ => hfresh i) hnodup horder hrun
  refine ⟨q, hleads, hidle', hrounds, ?_⟩
  rintro _ (rfl | ⟨i, hi, r, hr, rfl⟩)
  · exact hvisits
  · exact hbanked i hi r hr

/-- A partial order runs a round of the children it does not pass over. -/
theorem runsRound_partialOrder (hbody : body.WellFormed n)
    (hsome : ∃ i, skips (children i) = false) {words : Fin n → List NodePath}
    {S : Fin n → Set NodePath}
    (hrun : ∀ i, skips (children i) = false → Completes (children i) (words i) (S i)) :
    ∃ word, RunsRound (.partialOrder n children body) word
      {r | r = [] ∨ ∃ i, skips (children i) = false ∧ ∃ r' ∈ S i, r = i.val :: r'} := by
  obtain ⟨l, hnodup, hmem, horder⟩ := exists_orderly hbody fun i => skips (children i) = false
  obtain ⟨i, hi⟩ := hsome
  have hround := runsRound_along hbody (List.ne_nil_of_mem ((hmem i).mpr hi)) hnodup hmem horder
    fun i hi => hrun i ((hmem i).mp hi)
  simp only [hmem] at hround
  exact ⟨_, hround⟩

end PartialOrder

/-! ## Choice graphs -/

section ChoiceGraph

variable {n : ℕ} {children : Fin n → PowlNode} {body : ChoiceBody} {p : Position}
  {word word' : List NodePath} {S S' : Set NodePath}

/-- A sequence of steps of the child a choice graph is inside is one of the graph. -/
theorem Leads.inside {i : Fin n} {c c' : Position} (h : Leads (children i) c word c')
    (hc : p.child i = c) (hmax : ∀ max ∈ body.frequency.max, (p []).rounds < max)
    (hcursor : (p []).cursor = some i.val) (hi : ¬Complete (children i) c) :
    Leads (.choiceGraph n children body) p (word.map (i.val :: ·))
      (close (.choiceGraph n children body) (p.graft i c')) := by
  induction h generalizing p with
  | @last c c' path h =>
    subst hc
    exact .last (.inside i ⟨hmax, fun _ _ => nofun⟩ hcursor hi h)
  | @cons c c₁ c' path word h hc₁ _ ih =>
    subst hc
    have hstep : Fires none (.choiceGraph n children body) p (i.val :: path) _ :=
      .inside i ⟨hmax, fun _ _ => nofun⟩ hcursor hi h
    have hchild : ¬Complete (children i) ((p.graft i c₁).child i) := by
      rwa [Trie.child_graft_self]
    obtain ⟨hbody, hcomplete⟩ := not_complete_choiceGraph body (p := p.graft i c₁) hcursor hchild
    rw [close_of_not hbody] at hstep
    have hrest := ih (p := p.graft i c₁) (Trie.child_graft_self _ _ _) hmax hcursor hc₁
    rw [Trie.graft_graft] at hrest
    exact .cons hstep hcomplete hrest

/-- A sequence of steps of a child that a choice graph may enter. -/
theorem Leads.enter {i : Fin n} {c : Position} (h : Leads (children i) (clear (p.child i)) word c)
    (hmax : ∀ max ∈ body.frequency.max, (p []).rounds < max) (hcandidate : Candidate children body p i) :
    Leads (.choiceGraph n children body) p (word.map (i.val :: ·))
      (close (.choiceGraph n children body) (select (p.graft i c) i)) := by
  cases h with
  | last h => exact .last (.enter i ⟨hmax, fun _ _ => nofun⟩ hcandidate nofun h)
  | @cons _ c₁ _ path word h hc₁ hrest =>
    have hstep : Fires none (.choiceGraph n children body) p (i.val :: path) _ :=
      .enter i ⟨hmax, fun _ _ => nofun⟩ hcandidate nofun h
    have hchild : ¬Complete (children i) ((select (p.graft i c₁) i).child i) := by
      rwa [child_select, Trie.child_graft_self]
    obtain ⟨hbody, hcomplete⟩ := not_complete_choiceGraph body (p := select (p.graft i c₁) i) rfl hchild
    rw [close_of_not hbody] at hstep
    have hrest : Leads (.choiceGraph n children body) (select (p.graft i c₁) i) _ _ :=
      hrest.inside (by rw [child_select, Trie.child_graft_self]) hmax rfl hc₁
    rw [graft_select, Trie.graft_graft] at hrest
    exact .cons hstep hcomplete hrest

/-- From any position where a child may be entered, the leaves of the word fire one after another,
and the round is banked at the end. -/
def RunsFrom (children : Fin n → PowlNode) (body : ChoiceBody) (i : ℕ) (word : List NodePath)
    (S : Set NodePath) : Prop :=
  ∀ p, Candidate children body p i → (∀ max ∈ body.frequency.max, (p []).rounds < max) →
    ∃ q, Leads (.choiceGraph n children body) p word q ∧ ¬InProgress q ∧
      (q []).rounds = (p []).rounds + 1 ∧ Banked S q

/-- The last child of a round. -/
theorem Completes.runsFrom {i : Fin n} (h : Completes (children i) word S) (hend : i.val = body.endIdx) :
    RunsFrom children body i (word.map (i.val :: ·)) ((i.val :: ·) '' S) := by
  intro p hcandidate hmax
  obtain ⟨c, hleads, hcomplete, hbanked⟩ := h _ (not_touched_clear (p.child i))
  have hstep := hleads.enter hmax hcandidate
  have hbody : BodyComplete (.choiceGraph n children body) (select (p.graft i c) i) := by
    refine ⟨congrArg some hend, ?_⟩
    rw [← hend]
    exact ⟨i.isLt, by rwa [child_select, Trie.child_graft_self]⟩
  rw [close, if_pos hbody] at hstep
  refine ⟨_, hstep, not_inProgress_banked _, rfl, ?_⟩
  rintro _ ⟨r, hr, rfl⟩
  simpa [banked, Trie.relabel, Position.clear, Cell.clear, Trie.graft, select] using hbanked r hr

/-- A child and what follows it in its round. -/
theorem RunsFrom.cons {i : Fin n} {j : ℕ} (h : RunsFrom children body j word' S')
    (hi : Completes (children i) word S) (hend : i.val ≠ body.endIdx) (hsucc : j ∈ body.succ i) :
    RunsFrom children body i (word.map (i.val :: ·) ++ word') ((i.val :: ·) '' S ∪ S') := by
  intro p hcandidate hmax
  obtain ⟨c, hleads, hcomplete, hbanked⟩ := hi _ (not_touched_clear (p.child i))
  have hstep := hleads.enter hmax hcandidate
  have hchild : Complete (children i) ((select (p.graft i c) i).child i) := by
    rwa [child_select, Trie.child_graft_self]
  have hcursor : ¬(select (p.graft i c) i []).cursor = some body.endIdx := fun h =>
    hend (Option.some.inj h)
  have hbody : ¬BodyComplete (.choiceGraph n children body) (select (p.graft i c) i) := fun h =>
    hcursor h.1
  rw [close_of_not hbody] at hstep
  obtain ⟨q, hrest, hidle, hrounds, hbanked'⟩ := h (select (p.graft i c) i)
    ⟨⟨i.isLt, hchild⟩, hend, hsucc⟩ hmax
  refine ⟨q, hstep.append ?_ hrest, hidle, hrounds, ?_⟩
  · rintro (⟨-, hidle⟩ | ⟨-, h, -⟩)
    · exact hidle (Or.inl (Option.some_ne_none _))
    · exact hcursor h
  · rintro _ (⟨r, hr, rfl⟩ | hr)
    · have hle := hrest.visits_le (i.val :: r) (-1)
      refine (hbanked r hr).trans_le ?_
      simpa [select, Trie.relabel, Trie.graft] using hle
    · exact hbanked' _ hr

theorem RunsFrom.runsRound (h : RunsFrom children body body.startIdx word S) :
    RunsRound (.choiceGraph n children body) word S := by
  intro p hidle hmax
  refine h p ?_ (hmax _ rfl)
  have hcursor : (p []).cursor = none := by
    by_contra hcursor
    exact hidle (Or.inl hcursor)
  simp [Candidate, hcursor]

end ChoiceGraph

/-! ## Rounds -/

section Rounds

variable {node : PowlNode} {frequency : Frequency} {p q : Position} {word : List NodePath}
  {S : Set NodePath}

/-- The completion of a composite, by its frequency and its body. -/
theorem complete_iff_of_frequency (hfrequency : node.frequency? = some frequency) :
    Complete node p ↔ (frequency.allows (p []).rounds = true ∧ ¬InProgress p) ∨
      (frequency.allows ((p []).rounds + 1) = true ∧ BodyComplete node p) := by
  cases node with
  | partialOrder n children body =>
    cases hfrequency
    exact Iff.rfl
  | choiceGraph n children body =>
    cases hfrequency
    exact Iff.rfl
  | _ => exact absurd hfrequency nofun

/-- A composite that may run once does. -/
theorem RunsRound.completes_once (h : RunsRound node word S)
    (hfrequency : node.frequency? = some frequency) (hallows : frequency.allows 1 = true) :
    Completes node word S := by
  intro p hp
  have hzero : (p []).rounds = 0 := (cell_of_not_touched hp).2.2
  obtain ⟨q, hleads, hidle, hrounds, hbanked⟩ := h p (not_inProgress_of_not_touched hp)
    fun f hf max hmax => by
      obtain rfl : frequency = f := by simpa [hfrequency] using hf
      have := (Frequency.allows_iff.mp hallows).2 max hmax
      omega
  refine ⟨q, hleads, (complete_iff_of_frequency hfrequency).mpr (Or.inl ⟨?_, hidle⟩), hbanked⟩
  rwa [hrounds, hzero]

/-- A composite whose body is not complete between two rounds runs as many as it must, and one at
least. -/
theorem RunsRound.completes (h : RunsRound node word S)
    (hfrequency : node.frequency? = some frequency) (hmax : frequency.max ≠ some 0)
    (hbody : ∀ p, ¬InProgress p → ¬BodyComplete node p) : ∃ word', Completes node word' S := by
  have hle : ∀ max ∈ frequency.max, Nat.max 1 frequency.min ≤ max := by
    intro max hmem
    refine Nat.max_le.mpr ⟨Nat.pos_of_ne_zero fun hzero => hmax (hzero ▸ hmem), ?_⟩
    exact frequency.min_le max hmem
  -- by induction on the rounds that are left after the next one
  have hrun : ∀ (d : ℕ) (p : Position), ¬InProgress p →
      (p []).rounds + (d + 1) = Nat.max 1 frequency.min →
        ∃ q, Leads node p (List.replicate (d + 1) word).flatten q ∧ ¬InProgress q ∧
          (q []).rounds = Nat.max 1 frequency.min ∧ Banked S q := by
    intro d
    induction d with
    | zero =>
      intro p hidle hleft
      obtain ⟨q, hleads, hidle', hrounds, hbanked⟩ := h p hidle fun f hf max hmem => by
        obtain rfl : frequency = f := by simpa [hfrequency] using hf
        have := hle max hmem
        omega
      exact ⟨q, by simpa using hleads, hidle', by omega, hbanked⟩
    | succ d ih =>
      intro p hidle hleft
      obtain ⟨q, hleads, hidle', hrounds, hbanked⟩ := h p hidle fun f hf max hmem => by
        obtain rfl : frequency = f := by simpa [hfrequency] using hf
        have := hle max hmem
        omega
      obtain ⟨q', hleads', hrest⟩ := ih q hidle' (by omega)
      refine ⟨q', ?_, hrest⟩
      rw [List.replicate_succ, List.flatten_cons]
      refine hleads.append ?_ hleads'
      rw [complete_iff_of_frequency hfrequency]
      rintro (⟨hallows, -⟩ | ⟨-, hcomplete⟩)
      · have hmin := (Frequency.allows_iff.mp hallows).1
        have : Nat.max 1 frequency.min ≤ (q []).rounds := Nat.max_le.mpr ⟨by omega, hmin⟩
        omega
      · exact hbody q hidle' hcomplete
  refine ⟨(List.replicate (Nat.max 1 frequency.min - 1 + 1) word).flatten, fun p hp => ?_⟩
  have hzero : (p []).rounds = 0 := (cell_of_not_touched hp).2.2
  have hone : 1 ≤ Nat.max 1 frequency.min := Nat.le_max_left _ _
  obtain ⟨q, hleads, hidle, hrounds, hbanked⟩ := hrun (Nat.max 1 frequency.min - 1) p
    (not_inProgress_of_not_touched hp) (by omega)
  refine ⟨q, hleads, (complete_iff_of_frequency hfrequency).mpr (Or.inl ⟨?_, hidle⟩), hbanked⟩
  rw [hrounds]
  exact Frequency.allows_iff.mpr ⟨Nat.le_max_right _ _, hle⟩

end Rounds

/-! ## What finishes -/

/-- The end of a choice graph can be reached from a child that finishes. -/
def returns (n : ℕ) (body : ChoiceBody) (offers finishes : ℕ → Bool) (i : ℕ) : Bool :=
  decide (body.endIdx ∈ traverse n i fun i =>
    if finishes i then (body.succ i).filter fun j => offers j = true else ∅) &&
    finishes body.endIdx

/-- A run of the node to its end can bank a round of the partial order at a path. -/
def passes : PowlNode → NodePath → Bool
  | .partialOrder n children body, [] => finishes (.partialOrder n children body)
  | .partialOrder n children body, i :: r =>
    finishes (.partialOrder n children body) &&
      atChild (fun j => !skips (children j) && passes (children j) r) i
  | .choiceGraph n children body, i :: r =>
    body.frequency.max ≠ some 0 &&
      decide (i ∈ entered n body (atChild fun i => offers (children i))
        (atChild fun i => finishes (children i))) &&
      returns n body (atChild fun i => offers (children i)) (atChild fun i => finishes (children i)) i &&
      atChild (fun j => passes (children j) r) i
  | _, _ => false

section Finishes

variable {n : ℕ} {children : Fin n → PowlNode}

/-- A step of a run of a choice graph from one child that finishes to the next. -/
def ChoiceBody.Follows (body : ChoiceBody) (children : Fin n → PowlNode) (i j : ℕ) : Prop :=
  atChild (fun i => finishes (children i)) i = true ∧ j ∈ body.succ i ∧
    atChild (fun i => offers (children i)) j = true

theorem mem_entered_children_iff {body : ChoiceBody} (hbody : body.WellFormed n) {i : ℕ} :
    i ∈ body.entered children ↔ atChild (fun i => offers (children i)) body.startIdx = true ∧
      Relation.ReflTransGen (body.Follows children) body.startIdx i :=
  mem_entered_iff hbody

/-- The end of a choice graph is reached from a child, and finishes. -/
def ChoiceBody.Returns (body : ChoiceBody) (children : Fin n → PowlNode) (i : ℕ) : Prop :=
  Relation.ReflTransGen (body.Follows children) i body.endIdx ∧
    atChild (fun i => finishes (children i)) body.endIdx = true

theorem returns_iff {body : ChoiceBody} (hbody : body.WellFormed n) {i : ℕ} (hi : i < n) :
    returns n body (atChild fun i => offers (children i)) (atChild fun i => finishes (children i)) i =
      true ↔ body.Returns children i := by
  rw [returns, Bool.and_eq_true, decide_eq_true_eq, mem_traverse_finishing hbody hi]
  rfl

theorem passes_partialOrder_cons_iff {body : OrderBody} {i : ℕ} {r : NodePath} :
    passes (.partialOrder n children body) (i :: r) = true ↔
      finishes (.partialOrder n children body) = true ∧ ∃ hi : i < n,
        skips (children ⟨i, hi⟩) = false ∧ passes (children ⟨i, hi⟩) r = true := by
  rw [passes, Bool.and_eq_true, atChild_iff]
  simp only [Bool.and_eq_true, Bool.not_eq_true']

theorem passes_choiceGraph_cons_iff {body : ChoiceBody} (hbody : body.WellFormed n) {i : ℕ}
    {r : NodePath} :
    passes (.choiceGraph n children body) (i :: r) = true ↔ body.frequency.max ≠ some 0 ∧
      i ∈ body.entered children ∧ body.Returns children i ∧
        ∃ hi : i < n, passes (children ⟨i, hi⟩) r = true := by
  rw [passes]
  simp only [Bool.and_eq_true, decide_eq_true_eq, atChild_iff, and_assoc]
  refine and_congr_right fun _ => and_congr_right fun _ => ?_
  constructor
  · rintro ⟨hreturns, hi, hpasses⟩
    exact ⟨(returns_iff hbody hi).mp hreturns, hi, hpasses⟩
  · rintro ⟨hreturns, hi, hpasses⟩
    exact ⟨(returns_iff hbody hi).mpr hreturns, hi, hpasses⟩

/-- A choice graph runs from a child what it runs from one that is reached from there. -/
theorem runsFrom_of_walk {body : ChoiceBody} (hbody : body.WellFormed n)
    (hrun : ∀ i, finishes (children i) = true → ∃ word, Completes (children i) word ∅) {i j : ℕ}
    {S : Set NodePath} (hwalk : Relation.ReflTransGen (body.Follows children) i j)
    (hj : ∃ word, RunsFrom children body j word S) : ∃ word, RunsFrom children body i word S := by
  induction hwalk using Relation.ReflTransGen.head_induction_on with
  | refl => exact hj
  | @head a b hstep _ ih =>
    obtain ⟨word', hb⟩ := ih
    obtain ⟨hfinishes, hsucc, -⟩ := hstep
    obtain ⟨ha, hfinishes⟩ := atChild_iff.mp hfinishes
    obtain ⟨word, hcompletes⟩ := hrun ⟨a, ha⟩ hfinishes
    have hend : a ≠ body.endIdx := by
      obtain ⟨e, he, hsrc, -⟩ := ChoiceBody.mem_succ.mp hsucc
      exact hsrc ▸ (hbody.boundary e he).2
    have hcons := hb.cons (i := ⟨a, ha⟩) hcompletes hend hsucc
    rw [Set.image_empty, Set.empty_union] at hcons
    exact ⟨_, hcons⟩

/-- A choice graph is run to its end from a child from which the end is reached. -/
theorem runsFrom_of_returns {body : ChoiceBody} (hbody : body.WellFormed n)
    (hrun : ∀ i, finishes (children i) = true → ∃ word, Completes (children i) word ∅) {i : ℕ}
    (h : body.Returns children i) : ∃ word, RunsFrom children body i word ∅ := by
  obtain ⟨hwalk, hend⟩ := h
  obtain ⟨hlt, hfinishes⟩ := atChild_iff.mp hend
  obtain ⟨word, hcompletes⟩ := hrun ⟨body.endIdx, hlt⟩ hfinishes
  have hlast : RunsFrom children body body.endIdx _ _ := hcompletes.runsFrom rfl
  rw [Set.image_empty] at hlast
  exact runsFrom_of_walk hbody hrun hwalk ⟨_, hlast⟩

/-- A choice graph is run through a child from which the end is reached. -/
theorem runsFrom_through {body : ChoiceBody} (hbody : body.WellFormed n)
    (hrun : ∀ i, finishes (children i) = true → ∃ word, Completes (children i) word ∅) {i : Fin n}
    {word : List NodePath} {S : Set NodePath} (hi : Completes (children i) word S)
    (h : body.Returns children i) : ∃ word, RunsFrom children body i word ((i.val :: ·) '' S) := by
  obtain ⟨hwalk, hend⟩ := h
  rcases Relation.ReflTransGen.cases_head hwalk with heq | ⟨j, ⟨-, hsucc, -⟩, hwalk⟩
  · exact ⟨_, hi.runsFrom heq⟩
  · obtain ⟨word', hj⟩ := runsFrom_of_returns hbody hrun ⟨hwalk, hend⟩
    have hne : i.val ≠ body.endIdx := by
      obtain ⟨e, he, hsrc, -⟩ := ChoiceBody.mem_succ.mp hsucc
      exact hsrc ▸ (hbody.boundary e he).2
    have hcons := hj.cons hi hne hsucc
    rw [Set.union_empty] at hcons
    exact ⟨_, hcons⟩

/-- The body of what finishes is not complete between two rounds. -/
theorem not_bodyComplete_of_idle {node : PowlNode} {p : Position} (h : finishes node = true)
    (hidle : ¬InProgress p) : ¬BodyComplete node p := by
  intro hbody
  cases node with
  | partialOrder n children body =>
    obtain ⟨-, ⟨i, hi⟩, -⟩ := finishes_partialOrder_iff.mp h
    have hskips := (complete_iff_skips fun htouched => hidle (Or.inr ⟨i, htouched⟩)).mp (hbody i)
    rw [hi] at hskips
    exact Bool.false_ne_true hskips
  | choiceGraph n children body =>
    refine hidle (Or.inl ?_)
    rw [hbody.1]
    exact Option.some_ne_none _
  | _ => exact hbody

/-- What finishes is run to its end. -/
theorem completes_of_finishes : ∀ {node : PowlNode}, node.WellFormed → finishes node = true →
    ∃ word, Completes node word ∅
  | .start, _, _ | .finish, _, _ | .silent, _, _ | .atom _, _, _ => ⟨_, completes_of_isLeaf rfl⟩
  | .partialOrder n children body, hnode, h => by
    obtain ⟨hmax, hsome, hall⟩ := finishes_partialOrder_iff.mp h
    have hrun : ∀ i, ∃ word, skips (children i) = false → Completes (children i) word ∅ := by
      intro i
      rcases hall i with hskips | hfinishes
      · exact ⟨[], fun hi => by simp [hskips] at hi⟩
      · obtain ⟨word, hword⟩ := completes_of_finishes (hnode.2 i) hfinishes
        exact ⟨word, fun _ => hword⟩
    choose words hwords using hrun
    obtain ⟨word, hround⟩ := runsRound_partialOrder hnode.1 hsome hwords
    obtain ⟨word', hword'⟩ := hround.completes rfl hmax fun p hp => not_bodyComplete_of_idle h hp
    exact ⟨word', fun p hp => (hword' p hp).imp fun q hq => ⟨hq.1, hq.2.1, fun _ hr => hr.elim⟩⟩
  | .choiceGraph n children body, hnode, h => by
    obtain ⟨hmax, hentered, hend⟩ := finishes_choiceGraph_iff.mp h
    have hwalk := ((mem_entered_children_iff hnode.1).mp hentered).2
    obtain ⟨word, hrun⟩ := runsFrom_of_returns hnode.1
      (fun i hi => completes_of_finishes (hnode.2 i) hi) ⟨hwalk, hend⟩
    exact hrun.runsRound.completes rfl hmax fun p hp => not_bodyComplete_of_idle h hp

/-- What passes a partial order is run to its end through it. -/
theorem completes_of_passes : ∀ {node : PowlNode} {r : NodePath}, node.WellFormed →
    passes node r = true → ∃ word, Completes node word {r}
  | .partialOrder n children body, r, hnode, h => by
    have hfinishes : finishes (.partialOrder n children body) = true := by
      cases r with
      | nil => exact h
      | cons i r => exact (passes_partialOrder_cons_iff.mp h).1
    obtain ⟨hmax, hsome, hall⟩ := finishes_partialOrder_iff.mp hfinishes
    -- the child on the path, if there is one, is run through the rest of it
    have hrun : ∀ i : Fin n, ∃ word, skips (children i) = false →
        Completes (children i) word {r' | r = i.val :: r'} := by
      intro i
      rcases hall i with hskips | hchild
      · exact ⟨[], fun hi => by simp [hskips] at hi⟩
      · by_cases hr : ∃ r', r = i.val :: r'
        · obtain ⟨r', rfl⟩ := hr
          obtain ⟨_, _, _, hpasses⟩ := passes_partialOrder_cons_iff.mp h
          obtain ⟨word, hword⟩ := completes_of_passes (hnode.2 i) hpasses
          exact ⟨word, fun _ p hp => (hword p hp).imp fun q hq => ⟨hq.1, hq.2.1, by
            rintro r ⟨⟩
            exact hq.2.2 r' rfl⟩⟩
        · obtain ⟨word, hword⟩ := completes_of_finishes (hnode.2 i) hchild
          exact ⟨word, fun _ p hp => (hword p hp).imp fun q hq => ⟨hq.1, hq.2.1, fun r' hr' =>
            (hr ⟨r', hr'⟩).elim⟩⟩
    choose words hwords using hrun
    obtain ⟨word, hround⟩ := runsRound_partialOrder hnode.1 hsome hwords
    obtain ⟨word', hword'⟩ := hround.completes rfl hmax fun p hp =>
      not_bodyComplete_of_idle hfinishes hp
    refine ⟨word', fun p hp => (hword' p hp).imp fun q hq => ⟨hq.1, hq.2.1, ?_⟩⟩
    intro r' hr'
    obtain rfl : r' = r := hr'
    refine hq.2.2 r' ?_
    cases r' with
    | nil => exact Or.inl rfl
    | cons i r =>
      obtain ⟨-, hlt, hskips, -⟩ := passes_partialOrder_cons_iff.mp h
      exact Or.inr ⟨⟨i, hlt⟩, hskips, r, rfl, rfl⟩
  | .choiceGraph n children body, i :: r, hnode, h => by
    obtain ⟨hmax, hentered, hreturns, hlt, hpasses⟩ := (passes_choiceGraph_cons_iff hnode.1).mp h
    have hrun := fun i hi => completes_of_finishes (hnode.2 i) hi
    obtain ⟨word, hword⟩ := completes_of_passes (hnode.2 ⟨i, hlt⟩) hpasses
    obtain ⟨hstart, hwalk⟩ := (mem_entered_children_iff hnode.1).mp hentered
    obtain ⟨word', hfrom⟩ := runsFrom_of_walk hnode.1 hrun hwalk
      (runsFrom_through (i := ⟨i, hlt⟩) hnode.1 hrun hword hreturns)
    rw [Set.image_singleton] at hfrom
    have hfinishes : finishes (.choiceGraph n children body) = true := finishes_choiceGraph_iff.mpr
      ⟨hmax, (mem_entered_children_iff hnode.1).mpr ⟨hstart, hwalk.trans hreturns.1⟩, hreturns.2⟩
    exact hfrom.runsRound.completes rfl hmax fun p hp => not_bodyComplete_of_idle hfinishes hp

end Finishes

/-! ## Within bounds -/

/-- A step is one at any cap that is large enough. -/
theorem Fires.exists_cap {node : PowlNode} {p q : Position} {path : NodePath}
    (h : Fires none node p path q) :
    ∃ N : ℕ, ∀ cap : ℤ, N ≤ cap → Fires (some cap) node p path q := by
  have hopen : ∀ {frequency : Frequency} {p : Position} {cap : ℤ}, RoundOpen none frequency p →
      ((p []).visits (-1) : ℤ) < cap → RoundOpen (some cap) frequency p := by
    rintro frequency p cap h hlt
    exact ⟨h.lt_max, fun _ _ => by rintro _ ⟨⟩; exact hlt⟩
  induction h with
  | leaf hleaf hdone => exact ⟨0, fun _ _ => .leaf hleaf hdone⟩
  | @branch n children body p q path i ho hi hpred _ ih =>
    obtain ⟨N, hN⟩ := ih
    refine ⟨max N ((p []).visits (-1) + 1), fun cap hcap => ?_⟩
    exact .branch i (hopen ho (by omega)) hi hpred (hN cap (by omega))
  | @inside n children body p q path i ho hcursor hi _ ih =>
    obtain ⟨N, hN⟩ := ih
    refine ⟨max N ((p []).visits (-1) + 1), fun cap hcap => ?_⟩
    exact .inside i (hopen ho (by omega)) hcursor hi (hN cap (by omega))
  | @enter n children body p q path i ho hcandidate _ _ ih =>
    obtain ⟨N, hN⟩ := ih
    refine ⟨max (max N ((p []).visits (-1) + 1)) ((p []).visits i + 1), fun cap hcap => ?_⟩
    exact .enter i (hopen ho (by omega)) hcandidate (by rintro _ ⟨⟩; omega) (hN cap (by omega))

/-- The leaves of a word fire one after another. -/
def Steps (cap : Option ℤ) (node : PowlNode) : Position → List NodePath → Position → Prop
  | p, [], q => p = q
  | p, path :: word, q => ∃ p', Fires cap node p path p' ∧ Steps cap node p' word q

/-- Bounds that are large enough. -/
def Roomy (N : ℕ) (bound : ExecutionBound) : Prop :=
  N ≤ bound.maxActivityFires ∧ N ≤ bound.maxNodeVisits ∧ N ≤ bound.maxMarkingStates

section Run

variable {K : PowlCanon} {model : PowlNode} {bound : ExecutionBound} {p q : Position}
  {word : List NodePath}

theorem Leads.steps (h : Leads model p word q) : Steps none model p word q := by
  induction h with
  | last h => exact ⟨_, h, rfl⟩
  | cons h _ _ ih => exact ⟨_, h, ih⟩

theorem Steps.exists_cap : ∀ {word : List NodePath} {p : Position}, Steps none model p word q →
    ∃ N : ℕ, ∀ cap : ℤ, N ≤ cap → Steps (some cap) model p word q
  | [], _, h => ⟨0, fun _ _ => h⟩
  | path :: word, p, ⟨p', hfires, hrest⟩ => by
    obtain ⟨N, hN⟩ := hfires.exists_cap
    obtain ⟨N', hN'⟩ := hrest.exists_cap
    exact ⟨max N N', fun cap hcap => ⟨p', hN cap (by omega), hN' cap (by omega)⟩⟩

/-- Steps at the cap of the bounds are calls of `fire`, as long as the other bounds allow them. -/
theorem Steps.exists_calls (K : PowlCanon) : ∀ {word : List NodePath} {m : Marking},
    Steps (some bound.maxNodeVisits) model m.position word q → Slack bound m word.length →
      ∃ m', fireAll K model bound (word.map (·, "")) m = .ok m' ∧ m'.position = q
  | [], m, h, _ => ⟨m, rfl, h⟩
  | path :: word, m, ⟨p', hfires, hrest⟩, hslack => by
    obtain ⟨m₁, hm₁⟩ := exists_fire (K := K) (hslack.mono (by simp)) (mem_enabled_iff.mpr ⟨p', hfires⟩) ""
    obtain rfl : m₁.position = p' := (fires_of_fire hm₁).eq_stepAt.trans hfires.eq_stepAt.symm
    obtain ⟨m', hm', hq⟩ := Steps.exists_calls K hrest (hslack.fire hm₁)
    exact ⟨m', Fallible.bind_eq_ok.mpr ⟨m₁, hm₁, hm'⟩, hq⟩

/-- Steps from the initial position are a run, under bounds that allow as many. -/
theorem Steps.exists_run (K : PowlCanon)
    (h : Steps (some bound.maxNodeVisits) model initialMarking.position word q)
    (hfires : word.length ≤ bound.maxActivityFires) (hstates : word.length ≤ bound.maxMarkingStates) :
    ∃ m, FireRun K model bound (word.map (·, "")) m ∧ m.position = q := by
  have hslack : Slack bound initialMarking word.length := by
    constructor
    · simp only [initialMarking]
      omega
    · simp only [initialMarking, Finset.card_empty]
      omega
  obtain ⟨m, hcalls, hposition⟩ := h.exists_calls K hslack
  exact ⟨m, fireRun_iff.mpr hcalls, hposition⟩

theorem Leads.exists_run (h : Leads model initialMarking.position word q) (K : PowlCanon) :
    ∃ N, ∀ bound, Roomy N bound →
      ∃ m, FireRun K model bound (word.map (·, "")) m ∧ m.position = q := by
  obtain ⟨N, hN⟩ := h.steps.exists_cap
  exact ⟨max N word.length, fun bound ⟨hfires, hvisits, hstates⟩ =>
    (hN _ (by omega)).exists_run K (by omega) (by omega)⟩

/-- A run of `fire` is steps of the model. -/
theorem steps_of_fireAll : ∀ {calls : List (NodePath × String)} {m m' : Marking},
    fireAll K model bound calls m = .ok m' →
      Steps (some bound.maxNodeVisits) model m.position (calls.map Prod.fst) m'.position
  | [], m, m', h => congrArg Marking.position (Except.ok.inj h)
  | call :: calls, m, m', h => by
    obtain ⟨m₁, hfire, hcalls⟩ := Fallible.bind_eq_ok.mp h
    exact ⟨m₁.position, fires_of_fire hfire, steps_of_fireAll hcalls⟩

end Run

end GymAct.Powl
