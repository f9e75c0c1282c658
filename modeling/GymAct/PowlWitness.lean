import GymAct.PowlCounting
import GymAct.PowlRounds
import GymAct.TopologicalOrder
import Mathlib.Data.List.Sort
import Mathlib.Data.Multiset.Sort

/-!
# Sampling linearizations

`sample_linearizations` of `powl/witness.py` walks a model with a random generator and no
marking : the children of a partial order in a random topological order, each once, and a choice
graph from its start to its end. It reads `order` and never the frequencies or `closure`, which
the executor goes by.

`samples_are_runs` : what it yields is a run of the executor, when every composite it walks once
may be run once and is not passed over (`RunsOnce`). `optional_atom_sampled` is a model of which
it yields a label that no run has.
-/

namespace GymAct.Powl

open Position TopologicalOrder

/-! ## `witness.py` -/

/-- `random.Random` : `randrange(k)` draws a number below `k`. -/
structure Rng where
  State : Type
  /-- `rng_for_seed`. -/
  seeded : String → State
  randrange : State → ℕ → ℕ × State
  randrange_lt : ∀ s k, 0 < k → (randrange s k).1 < k

/-- `_MAX_WALK_STEPS`. -/
def maxWalkSteps : ℕ := 256

/-- `preds`, as it is counted first. -/
def indegree (order : Finset OrderEdge) (j : ℕ) : ℕ := (order.filter fun e => e.dst = j).card

/-- `sorted(succs[i])`. -/
def successors (order : Finset OrderEdge) (i : ℕ) : List ℕ :=
  ((order.filter fun e => e.src = i).image OrderEdge.dst).sort (· ≤ ·)

/-- A predecessor of `j` is listed : `j` is ready once none is left. -/
def release (state : (ℕ → ℕ) × List ℕ) (j : ℕ) : (ℕ → ℕ) × List ℕ :=
  let preds := Function.update state.1 j (state.1 j - 1)
  (preds, if preds j = 0 then state.2 ++ [j] else state.2)

/-- The loop of `_random_topological_order`. -/
def topologicalLoop (R : Rng) (order : Finset OrderEdge) :
    ℕ → (ℕ → ℕ) → List ℕ → List ℕ → R.State → List ℕ × R.State
  | 0, _, _, out, s => (out, s)
  | fuel + 1, preds, ready, out, s =>
    if ready = [] then (out, s)
    else
      let drawn := R.randrange s ready.length
      match ready[drawn.1]? with
      | none => (out, drawn.2)
      | some i =>
        let released := (successors order i).foldl release (preds, ready.eraseIdx drawn.1)
        topologicalLoop R order fuel released.1 (released.2.insertionSort (· ≤ ·)) (out ++ [i]) drawn.2

/-- `_random_topological_order`; every child is listed once, so a pass for each is enough. -/
def randomTopologicalOrder (R : Rng) (n : ℕ) (order : Finset OrderEdge) (s : R.State) :
    List ℕ × R.State :=
  topologicalLoop R order n (indegree order)
    ((List.range n).filter fun i => indegree order i = 0) [] s

/-- `succs.get(cur)` of a choice graph. -/
def ChoiceBody.options (body : ChoiceBody) (cur : ℕ) : List ℕ :=
  ((body.edges.filter fun e => e.src = cur).val.map ChoiceGraphEdge.dst).sort (· ≤ ·)

/-- The children one after another, each by `visit`. -/
def visitAll {σ : Type} (visit : ℕ → σ → Except PowlRefusal (List String × σ)) :
    List ℕ → List String → σ → Except PowlRefusal (List String × σ)
  | [], out, s => pure (out, s)
  | i :: rest, out, s => do
    let (labels, s) ← visit i s
    visitAll visit rest (out ++ labels) s

/-- The walk of a choice graph, each child by `visit`. -/
def walkChoice (R : Rng) (body : ChoiceBody) (visit : ℕ → R.State → Except PowlRefusal (List String × R.State)) :
    ℕ → ℕ → List String → R.State → Except PowlRefusal (List String × R.State)
  | 0, _, _, _ => throw .choiceGraphDisconnected
  | steps + 1, cur, out, s => do
    let (labels, s) ← visit cur s
    if cur = body.endIdx then pure (out ++ labels, s)
    else if body.options cur = [] then throw .choiceGraphDisconnected
    else
      let drawn := R.randrange s (body.options cur).length
      match (body.options cur)[drawn.1]? with
      | none => throw .choiceGraphDisconnected
      | some next => walkChoice R body visit steps next (out ++ labels) drawn.2

/-- `_one_linearization`. -/
def oneLinearization (R : Rng) : PowlNode → R.State → Except PowlRefusal (List String × R.State)
  | .atom a, s => pure ([a.label], s)
  | .partialOrder n children body, s =>
    let ordered := randomTopologicalOrder R n body.order s
    visitAll (fun i s => if h : i < n then oneLinearization R (children ⟨i, h⟩) s
      else throw .danglingReference) ordered.1 [] ordered.2
  | .choiceGraph n children body, s =>
    walkChoice R body (fun i s => if h : i < n then oneLinearization R (children ⟨i, h⟩) s
      else throw .danglingReference) maxWalkSteps body.startIdx [] s
  | _, s => pure ([], s)

/-- How a generator ends : it is exhausted, or raises. -/
inductive SampleEnd
  | exhausted
  | valueError
  | refused (refusal : PowlRefusal)
  deriving DecidableEq, Repr

/-- The loop of `sample_linearizations` : the tuples yielded, and how it ends. -/
def sampleLoop (R : Rng) (node : PowlNode) : ℕ → R.State → List (List String) × SampleEnd
  | 0, _ => ([], .exhausted)
  | samples + 1, s =>
    match oneLinearization R node s with
    | .error refusal => ([], .refused refusal)
    | .ok (labels, s) =>
      let rest := sampleLoop R node samples s
      (labels :: rest.1, rest.2)

/-- `sample_linearizations`. -/
def sampleLinearizations (R : Rng) (node : PowlNode) (samples : ℤ) (seed : String) :
    List (List String) × SampleEnd :=
  if samples < 0 then ([], .valueError) else sampleLoop R node samples.toNat (R.seeded seed)

/-! ## Topological orders -/

section Topological

variable {order : Finset OrderEdge} {n i j : ℕ}

theorem mem_predecessors : i ∈ predecessors order j ↔ Precedes order i j := by
  simp only [predecessors, Finset.mem_image, Finset.mem_filter, Precedes]
  constructor
  · rintro ⟨⟨src, dst⟩, ⟨he, rfl⟩, rfl⟩
    exact he
  · exact fun h => ⟨⟨i, j⟩, ⟨h, rfl⟩, rfl⟩

theorem mem_successors : j ∈ successors order i ↔ Precedes order i j := by
  simp only [successors, Finset.mem_sort, Finset.mem_image, Finset.mem_filter, Precedes]
  constructor
  · rintro ⟨⟨src, dst⟩, ⟨he, rfl⟩, rfl⟩
    exact he
  · exact fun h => ⟨⟨i, j⟩, ⟨h, rfl⟩, rfl⟩

theorem indegree_eq : indegree order j = (predecessors order j).card := by
  refine (Finset.card_image_of_injOn ?_).symm
  rintro ⟨a, b⟩ hab ⟨c, d⟩ hcd heq
  obtain rfl : b = j := (Finset.mem_filter.mp hab).2
  obtain rfl : d = b := (Finset.mem_filter.mp hcd).2
  obtain rfl : a = c := heq
  rfl

theorem foldl_release {l : List ℕ} (hl : l.Nodup) (preds : ℕ → ℕ) (ready : List ℕ) :
    l.foldl release (preds, ready) = (fun j => if j ∈ l then preds j - 1 else preds j,
      ready ++ l.filter fun j => preds j - 1 = 0) := by
  induction l generalizing preds ready with
  | nil => simp
  | cons a l ih =>
    obtain ⟨ha, hl⟩ := List.nodup_cons.mp hl
    have hne : ∀ b ∈ l, b ≠ a := fun b hb heq => ha (heq ▸ hb)
    rw [List.foldl_cons, release, ih hl]
    refine Prod.ext (funext fun j => ?_) ?_
    · by_cases hj : j = a
      · subst hj
        simp [ha]
      · simp [hj]
    · have hfilter : (l.filter fun j => Function.update preds a (preds a - 1) j - 1 = 0) =
          l.filter fun j => preds j - 1 = 0 := by
        refine List.filter_congr fun b hb => ?_
        rw [Function.update_of_ne (hne b hb)]
      simp only [hfilter, Function.update_self, List.filter_cons, decide_eq_true_eq]
      split
      · rw [List.append_assoc, List.singleton_append]
      · rfl

/-- One pass of the loop lists a child that is ready. -/
theorem sorting_release {out ready : List ℕ} {preds : ℕ → ℕ}
    (hbounded : ∀ e ∈ order, e.src < n ∧ e.dst < n)
    (h : Sorting (Precedes order) (Finset.range n) out ready)
    (hpreds : ∀ j, preds j = (predecessors order j \ out.toFinset).card) {k : ℕ}
    (hk : ready[k]? = some i) {released : (ℕ → ℕ) × List ℕ}
    (hreleased : (successors order i).foldl release (preds, ready.eraseIdx k) = released) :
    Sorting (Precedes order) (Finset.range n) (out ++ [i]) (released.2.insertionSort (· ≤ ·)) ∧
      ∀ j, released.1 j = (predecessors order j \ (out ++ [i]).toFinset).card := by
  obtain ⟨hlt, rfl⟩ := List.getElem?_eq_some_iff.mp hk
  obtain ⟨-, hready, hdisjoint⟩ := List.nodup_append.mp h.nodup
  have hmem : ready[k] ∈ ready := List.getElem_mem hlt
  have hout : ready[k] ∉ out := fun hmem' => hdisjoint _ hmem' _ hmem rfl
  have hsorted : (successors order ready[k]).Nodup := Finset.sort_nodup _ _
  rw [foldl_release hsorted] at hreleased
  subst hreleased
  have hcard : ∀ j, (if j ∈ successors order ready[k] then preds j - 1 else preds j) =
      (predecessors order j \ (out ++ [ready[k]]).toFinset).card := by
    intro j
    have hsdiff : predecessors order j \ (out ++ [ready[k]]).toFinset =
        (predecessors order j \ out.toFinset).erase ready[k] := by
      ext a
      simp only [Finset.mem_sdiff, List.mem_toFinset, List.mem_append, List.mem_singleton,
        Finset.mem_erase, not_or]
      tauto
    rw [hsdiff, hpreds]
    split
    · next hj =>
      rw [Finset.card_erase_of_mem]
      exact Finset.mem_sdiff.mpr ⟨mem_predecessors.mpr (mem_successors.mp hj), by simpa using hout⟩
    · next hj =>
      rw [Finset.erase_eq_of_notMem]
      exact fun hmem => hj (mem_successors.mpr (mem_predecessors.mp (Finset.mem_sdiff.mp hmem).1))
  -- a child is released when the one listed was the last of its predecessors
  have hfresh : ∀ b ∈ successors order ready[k], b ∉ out ++ ready := by
    intro b hb hmem
    exact hout (((h.mem_iff b).mp hmem).2 _ (mem_successors.mp hb))
  have hlast : ∀ b ∈ successors order ready[k],
      preds b - 1 = 0 ↔ ∀ c, Precedes order c b → c ∈ out ++ [ready[k]] := by
    intro b hb
    have := hcard b
    rw [if_pos hb] at this
    rw [this, Finset.card_eq_zero, Finset.sdiff_eq_empty_iff_subset]
    refine ⟨fun hsub c hc => ?_, fun hall c hc => ?_⟩
    · exact List.mem_toFinset.mp (hsub (mem_predecessors.mpr hc))
    · exact List.mem_toFinset.mpr (hall c (mem_predecessors.mp hc))
  refine ⟨h.step hmem ?_ fun b => ?_, hcard⟩
  · rw [List.Perm.nodup_iff (List.perm_insertionSort _ _)]
    refine List.nodup_append.mpr ⟨hready.eraseIdx k, hsorted.filter _, ?_⟩
    rintro b hb _ hb' rfl
    exact hfresh b (List.mem_filter.mp hb').1 (List.mem_append_right _ (List.mem_of_mem_eraseIdx hb))
  · rw [List.Perm.mem_iff (List.perm_insertionSort _ _), List.mem_append, ← hready.erase_getElem k hlt,
      hready.mem_erase_iff, and_comm, List.mem_filter, decide_eq_true_eq]
    refine or_congr Iff.rfl ⟨fun ⟨hb, hzero⟩ => ⟨hfresh b hb, ?_, (hlast b hb).mp hzero⟩, ?_⟩
    · exact Finset.mem_range.mpr (hbounded _ (mem_successors.mp hb)).2
    · rintro ⟨hnew, hb, hall⟩
      have hsucc : b ∈ successors order ready[k] := by
        by_contra hsucc
        refine hnew ((h.mem_iff b).mpr ⟨hb, fun c hc => ?_⟩)
        rcases List.mem_append.mp (hall c hc) with hc' | hc'
        · exact hc'
        · exact (hsucc (mem_successors.mpr (List.mem_singleton.mp hc' ▸ hc))).elim
      exact ⟨hsucc, (hlast b hsucc).mpr hall⟩

/-- The loop lists all children. -/
theorem sorting_topologicalLoop {R : Rng} (hbounded : ∀ e ∈ order, e.src < n ∧ e.dst < n) :
    ∀ {fuel : ℕ} {preds : ℕ → ℕ} {ready out : List ℕ} {s : R.State},
      Sorting (Precedes order) (Finset.range n) out ready →
      (∀ j, preds j = (predecessors order j \ out.toFinset).card) → n ≤ out.length + fuel →
        Sorting (Precedes order) (Finset.range n) (topologicalLoop R order fuel preds ready out s).1 []
  | 0, preds, ready, out, s, h, _, hfuel => by
    have hle := h.length_le
    rw [Finset.card_range] at hle
    obtain rfl : ready = [] := List.eq_nil_of_length_eq_zero (by omega)
    exact h
  | fuel + 1, preds, ready, out, s, h, hpreds, hfuel => by
    rw [topologicalLoop]
    split
    · next hready => exact hready ▸ h
    · next hready =>
      have hlt := R.randrange_lt s ready.length (List.length_pos_iff.mpr hready)
      have hget := List.getElem?_eq_getElem hlt
      dsimp only
      rw [hget]
      obtain ⟨hnext, hpreds'⟩ := sorting_release hbounded h hpreds hget rfl
      refine sorting_topologicalLoop hbounded hnext hpreds' ?_
      rw [List.length_append, List.length_singleton]
      omega

/-- `_random_topological_order` lists every child once, along the order. -/
theorem sorting_randomTopologicalOrder (R : Rng) (hbounded : ∀ e ∈ order, e.src < n ∧ e.dst < n)
    (s : R.State) :
    Sorting (Precedes order) (Finset.range n) (randomTopologicalOrder R n order s).1 [] := by
  refine sorting_topologicalLoop hbounded (sorting_init (List.nodup_range.filter _) fun j => ?_)
    (fun j => by simp [indegree_eq]) (by simp)
  rw [List.mem_filter, List.mem_range, Finset.mem_range, decide_eq_true_eq, indegree_eq,
    Finset.card_eq_zero, Finset.eq_empty_iff_forall_notMem]
  simp only [mem_predecessors]

end Topological

/-! ## Labels -/

/-- The label of an activity. -/
def PowlNode.label? : PowlNode → Option String
  | .atom a => some a.label
  | _ => none

/-- `trace_of`. -/
def traceOf (model : PowlNode) (paths : List NodePath) : List String :=
  paths.filterMap fun p => (nodeAt model p).bind PowlNode.label?

theorem traceOf_append (model : PowlNode) (word word' : List NodePath) :
    traceOf model (word ++ word') = traceOf model word ++ traceOf model word' :=
  List.filterMap_append

theorem traceOf_map_cons {node child : PowlNode} {i : ℕ} (hchild : node.child? i = some child)
    (word : List NodePath) : traceOf node (word.map (i :: ·)) = traceOf child word := by
  rw [traceOf, List.filterMap_map]
  refine List.filterMap_congr fun p _ => ?_
  simp [nodeAt, hchild]

/-! ## What the sampler walks -/

/-- Every composite may be run once, every partial order is the order its closure keeps, and a
composite a partial order runs is asked for once. -/
def RunsOnce : PowlNode → Prop
  | .partialOrder _ children body =>
    body.frequency.allows 1 = true ∧ (∀ e ∈ body.closure, Reaches body.order e.src e.dst) ∧
      ∀ i, (∀ frequency ∈ (children i).frequency?, frequency.min = 1) ∧ RunsOnce (children i)
  | .choiceGraph _ children body => body.frequency.allows 1 = true ∧ ∀ i, RunsOnce (children i)
  | _ => True

theorem RunsOnce.not_skips : ∀ {node : PowlNode}, node.WellFormed → RunsOnce node →
    (∀ frequency ∈ node.frequency?, frequency.min = 1) → skips node = false
  | .start, _, _, _ | .finish, _, _, _ | .silent, _, _, _ | .atom _, _, _, _ => rfl
  | .partialOrder n children body, hnode, h, hmin => by
    have hlt : 0 < n := by
      have := hnode.1.two_le
      omega
    have hchild := (h.2.2 ⟨0, hlt⟩).2.not_skips (hnode.2 _) (h.2.2 ⟨0, hlt⟩).1
    have hzero : body.frequency.allows 0 = false := by
      rw [← Bool.not_eq_true, Frequency.allows_iff, hmin _ rfl]
      omega
    have hall : ((List.finRange n).all fun i => skips (children i)) = false := by
      rw [List.all_eq_false]
      exact ⟨⟨0, hlt⟩, List.mem_finRange _, by simp [hchild]⟩
    rw [skips, hzero, hall, Bool.and_false, Bool.or_false]
  | .choiceGraph n children body, _, _, hmin => by
    rw [skips, ← Bool.not_eq_true, Frequency.allows_iff, hmin _ rfl]
    omega

section Walk

variable {R : Rng} {n : ℕ} {children : Fin n → PowlNode}

/-- What a visit of a child returns is the labels of a way to run it to its end. -/
def Visits (children : Fin n → PowlNode)
    (visit : ℕ → R.State → Except PowlRefusal (List String × R.State)) : Prop :=
  ∀ i s labels s', visit i s = .ok (labels, s') → ∃ (hi : i < n) (word : List NodePath),
    Completes (children ⟨i, hi⟩) word ∅ ∧ traceOf (children ⟨i, hi⟩) word = labels

theorem visits_children {sample : PowlNode → R.State → Except PowlRefusal (List String × R.State)}
    (h : ∀ (i : Fin n) (s s' : R.State) (labels : List String),
      sample (children i) s = .ok (labels, s') →
        ∃ word, Completes (children i) word ∅ ∧ traceOf (children i) word = labels) :
    Visits children fun i s => if h : i < n then sample (children ⟨i, h⟩) s
      else throw .danglingReference := by
  intro i s labels s' hi
  dsimp only at hi
  split at hi
  · next hlt => exact ⟨hlt, h _ _ _ _ hi⟩
  · exact absurd hi nofun

variable {visit : ℕ → R.State → Except PowlRefusal (List String × R.State)}

theorem visitAll_spec (hvisit : Visits children visit) {l : List (Fin n)} (hl : l.Nodup)
    {out out' : List String} {s s' : R.State}
    (h : visitAll visit (l.map Fin.val) out s = .ok (out', s')) :
    ∃ words : Fin n → List NodePath, (∀ i ∈ l, Completes (children i) (words i) ∅) ∧
      out' = out ++ l.flatMap fun i => traceOf (children i) (words i) := by
  induction l generalizing out s with
  | nil =>
    obtain ⟨rfl, rfl⟩ := Prod.mk.inj (Except.ok.inj h)
    exact ⟨fun _ => [], by simp, by simp⟩
  | cons i l ih =>
    obtain ⟨hi, hl⟩ := List.nodup_cons.mp hl
    obtain ⟨⟨labels, s₁⟩, hlabels, hrest⟩ := Fallible.bind_eq_ok.mp h
    obtain ⟨_, word, hword, htrace⟩ := hvisit _ _ _ _ hlabels
    subst htrace
    obtain ⟨words, hwords, rfl⟩ := ih hl hrest
    have hne : ∀ j ∈ l, j ≠ i := fun j hj heq => hi (heq ▸ hj)
    refine ⟨Function.update words i word, fun j hj => ?_, ?_⟩
    · rcases List.mem_cons.mp hj with rfl | hj
      · rwa [Function.update_self]
      · rw [Function.update_of_ne (hne j hj)]
        exact hwords j hj
    · rw [List.flatMap_cons, Function.update_self, List.append_assoc]
      congr 2
      refine List.flatMap_congr fun j hj => ?_
      rw [Function.update_of_ne (hne j hj)]

theorem walkChoice_spec {body : ChoiceBody} (hbody : body.WellFormed n) (hvisit : Visits children visit) :
    ∀ {steps cur : ℕ} {out out' : List String} {s s' : R.State},
      walkChoice R body visit steps cur out s = .ok (out', s') →
        ∃ word, RunsFrom children body cur word ∅ ∧
          out' = out ++ traceOf (.choiceGraph n children body) word
  | 0, _, _, _, _, _, h => absurd h nofun
  | steps + 1, cur, out, out', s, s', h => by
    obtain ⟨⟨labels, s₁⟩, hlabels, hrest⟩ := Fallible.bind_eq_ok.mp h
    obtain ⟨hcur, word, hword, rfl⟩ := hvisit _ _ _ _ hlabels
    have htrace : traceOf (.choiceGraph n children body) (word.map (cur :: ·)) =
        traceOf (children ⟨cur, hcur⟩) word := traceOf_map_cons (by simp [hcur]) word
    dsimp only at hrest
    split at hrest
    · next hend =>
      obtain ⟨rfl, rfl⟩ := Prod.mk.inj (Except.ok.inj hrest)
      have hlast := hword.runsFrom (i := ⟨cur, hcur⟩) hend
      rw [Set.image_empty] at hlast
      exact ⟨_, hlast, by rw [htrace]⟩
    · next hend =>
      split at hrest
      · exact absurd hrest nofun
      · split at hrest
        · exact absurd hrest nofun
        · next next hnext =>
          have hsucc : next ∈ body.succ cur := by
            have hmem := List.mem_of_getElem? hnext
            simp only [ChoiceBody.options, Multiset.mem_sort, Multiset.mem_map, Finset.mem_val,
              Finset.mem_filter] at hmem
            obtain ⟨e, ⟨he, hsrc⟩, hdst⟩ := hmem
            exact ChoiceBody.mem_succ.mpr ⟨e, he, hsrc, hdst⟩
          obtain ⟨word', hfrom, rfl⟩ := walkChoice_spec hbody hvisit hrest
          have hcons := hfrom.cons (i := ⟨cur, hcur⟩) hword hend hsucc
          rw [Set.image_empty, Set.empty_union] at hcons
          exact ⟨_, hcons, by rw [traceOf_append, htrace, List.append_assoc]⟩

end Walk

/-- What the sampler returns of a node is the labels of a way to run it to its end. -/
theorem completes_of_oneLinearization {R : Rng} : ∀ {node : PowlNode} {s s' : R.State}
    {labels : List String}, node.WellFormed → RunsOnce node →
    oneLinearization R node s = .ok (labels, s') →
      ∃ word, Completes node word ∅ ∧ traceOf node word = labels
  | .start, _, _, _, _, _, h | .finish, _, _, _, _, _, h | .silent, _, _, _, _, _, h
  | .atom _, _, _, _, _, _, h => by
    obtain ⟨rfl, rfl⟩ := Prod.mk.inj (Except.ok.inj h)
    exact ⟨_, completes_of_isLeaf rfl, rfl⟩
  | .partialOrder n children body, s, s', labels, hnode, honce, h => by
    obtain ⟨hallows, hclosure, hchildren⟩ := honce
    have hreduced := transitiveReduction_self_iff.mp hnode.1.reduced
    have hbounded := hreduced.bounded
    have hsorting := sorting_randomTopologicalOrder R hbounded s
    have hmem : ∀ i, i ∈ (randomTopologicalOrder R n body.order s).1 ↔ i < n := fun i =>
      ⟨fun hi => Finset.mem_range.mp (hsorting.mem_nodes hi), fun hi =>
        hsorting.mem_of_done hreduced.acyclic (fun a b hab => Finset.mem_range.mpr (hbounded _ hab).1)
          (Finset.mem_range.mpr hi)⟩
    obtain ⟨l, hl⟩ : ∃ l : List (Fin n), l.map Fin.val = (randomTopologicalOrder R n body.order s).1 :=
      CanLift.prf _ fun i hi => (hmem i).mp hi
    have hnodup : l.Nodup := List.Nodup.of_map Fin.val (by
      rw [hl, ← List.append_nil (randomTopologicalOrder R n body.order s).1]
      exact hsorting.nodup)
    have hall : ∀ i : Fin n, i ∈ l := fun i => by
      have hi := (hmem i).mpr i.isLt
      rw [← hl] at hi
      obtain ⟨j, hj, heq⟩ := List.mem_map.mp hi
      exact Fin.ext heq ▸ hj
    have horder : l.Pairwise fun i j => ⟨j.val, i.val⟩ ∉ body.closure := by
      have hpairwise := hsorting.pairwise
      rw [← hl, List.pairwise_map] at hpairwise
      exact hpairwise.imp fun hnot hmem => hnot (hclosure _ hmem)
    rw [oneLinearization, ← hl] at h
    have hvisit : Visits (R := R) children fun i s => if h : i < n then
        oneLinearization R (children ⟨i, h⟩) s else throw .danglingReference :=
      visits_children fun i s s' labels hi =>
        completes_of_oneLinearization (hnode.2 i) (hchildren i).2 hi
    obtain ⟨words, hwords, rfl⟩ := visitAll_spec hvisit hnodup h
    have hne : l ≠ [] := by
      have := hnode.1.two_le
      exact List.ne_nil_of_mem (hall ⟨0, by omega⟩)
    have hround := runsRound_along hnode.1 hne hnodup
      (fun i => iff_of_true (hall i) ((hchildren i).2.not_skips (hnode.2 i) (hchildren i).1)) horder
      hwords
    refine ⟨_, fun p hp => (hround.completes_once rfl hallows p hp).imp fun q hq =>
      ⟨hq.1, hq.2.1, fun _ hr => hr.elim⟩, ?_⟩
    rw [List.nil_append, traceOf, List.filterMap_flatMap]
    exact List.flatMap_congr fun i _ => traceOf_map_cons (by simp) _
  | .choiceGraph n children body, s, s', labels, hnode, honce, h => by
    have hvisit : Visits (R := R) children fun i s => if h : i < n then
        oneLinearization R (children ⟨i, h⟩) s else throw .danglingReference :=
      visits_children fun i s s' labels hi =>
        completes_of_oneLinearization (hnode.2 i) (honce.2 i) hi
    obtain ⟨word, hfrom, htrace⟩ := walkChoice_spec hnode.1 hvisit h
    refine ⟨word, hfrom.runsRound.completes_once rfl honce.1, ?_⟩
    rw [htrace, List.nil_append]

theorem oneLinearization_of_mem {R : Rng} {node : PowlNode} {labels : List String} :
    ∀ {samples : ℕ} {s : R.State}, labels ∈ (sampleLoop R node samples s).1 →
      ∃ s₁ s₂, oneLinearization R node s₁ = .ok (labels, s₂)
  | 0, _, h => absurd h List.not_mem_nil
  | samples + 1, s, h => by
    rw [sampleLoop] at h
    split at h
    · exact absurd h List.not_mem_nil
    · next labels' s' hone =>
      rcases List.mem_cons.mp h with rfl | h
      · exact ⟨s, s', hone⟩
      · exact oneLinearization_of_mem h

/-- What the sampler yields of a model that runs once is the labels of a run that ends final. -/
theorem samples_are_runs (K : PowlCanon) (R : Rng) {model : PowlNode}
    (hvalid : validateModel model = .ok ()) (honce : RunsOnce model) (samples : ℤ) (seed : String) :
    ∀ labels ∈ (sampleLinearizations R model samples seed).1, ∃ N, ∀ bound, Roomy N bound →
      ∃ calls m, FireRun K model bound calls m ∧ isFinal model m = true ∧
        traceOf model (calls.map Prod.fst) = labels := by
  intro labels hmem
  unfold sampleLinearizations at hmem
  split at hmem
  · exact absurd hmem List.not_mem_nil
  · obtain ⟨s₁, s₂, hone⟩ := oneLinearization_of_mem hmem
    obtain ⟨word, hword, htrace⟩ :=
      completes_of_oneLinearization (wellFormed_of_validateModel hvalid) honce hone
    obtain ⟨q, hleads, hcomplete, -⟩ := hword _ not_touched_initial
    obtain ⟨N, hN⟩ := hleads.exists_run K
    refine ⟨N, fun bound hroomy => ?_⟩
    obtain ⟨m, hrun, rfl⟩ := hN bound hroomy
    refine ⟨_, m, hrun, isFinal_iff.mpr hcomplete, ?_⟩
    rw [List.map_map]
    exact (congrArg (traceOf model) (List.map_id word)).trans htrace

/-- A partial order fires in no child it passes over. -/
theorem FireRun.not_skips {K : PowlCanon} {bound : ExecutionBound} {n : ℕ}
    {children : Fin n → PowlNode} {body : OrderBody} {calls : List (NodePath × String)} {m : Marking}
    (hvalid : validateModel (.partialOrder n children body) = .ok ())
    (h : FireRun K (.partialOrder n children body) bound calls m) :
    ∀ call ∈ calls, ∃ (i : Fin n) (s : NodePath), call.1 = i.val :: s ∧ skips (children i) = false := by
  induction h with
  | nil => simp
  | snoc hrun hfire ih =>
    intro call hcall
    rcases List.mem_append.mp hcall with hcall | hcall
    · exact ih call hcall
    · obtain rfl := List.mem_singleton.mp hcall
      obtain ⟨i, s, -, rfl, -, hi, -⟩ := fires_partialOrder_iff.mp (fires_of_fire hfire)
      exact ⟨i, s, rfl, (live_of_fireRun hvalid hrun).1.skips_eq_false hi⟩

/-- The generator that draws the first number every time. -/
def Rng.first : Rng where
  State := Unit
  seeded := fun _ => ()
  randrange := fun s _ => (0, s)
  randrange_lt := fun _ _ h => h

/-- An optional activity beside a silent step. -/
def optionalAtom : PowlNode :=
  .partialOrder 2 ![.partialOrder 2 ![.atom { label := "A", key := "a" }, .silent]
    ⟨∅, ∅, ⟨0, some 1, by simp⟩⟩, .silent] ⟨∅, ∅, once⟩

theorem optional_atom_sampled : validateModel optionalAtom = .ok () ∧
    (sampleLinearizations .first optionalAtom 1 "seed").1 = [["A"]] ∧
    ∀ bound calls m, FireRun .reference optionalAtom bound calls m →
      traceOf optionalAtom (calls.map Prod.fst) ≠ ["A"] := by
  obtain ⟨⟨⟩, hvalid⟩ := Fallible.exists_eq_ok_of_isOk (x := validateModel optionalAtom)
    (by decide +kernel)
  refine ⟨hvalid, by decide +kernel, fun bound calls m h => ?_⟩
  have hnil : traceOf optionalAtom (calls.map Prod.fst) = [] := by
    refine List.filterMap_eq_nil_iff.mpr fun path hpath => ?_
    obtain ⟨call, hcall, rfl⟩ := List.mem_map.mp hpath
    obtain ⟨i, s, hpath, hskips⟩ := h.not_skips hvalid call hcall
    rw [hpath]
    rcases Fin.exists_fin_two.mp ⟨i, rfl⟩ with rfl | rfl
    · exact absurd hskips (by decide +kernel)
    · cases s with
      | nil => rfl
      | cons j s => rfl
  rw [hnil]
  exact (List.cons_ne_nil _ _).symm

/-- Two activities in either order. -/
def bothAtoms : PowlNode :=
  .partialOrder 2 ![.atom { label := "A", key := "a" }, .atom { label := "B", key := "b" }] ⟨∅, ∅, once⟩

theorem samples_are_runs_both : (sampleLinearizations .first bothAtoms 2 "seed").1 =
      [["A", "B"], ["A", "B"]] ∧
    ∃ N, ∀ bound, Roomy N bound → ∃ calls m, FireRun .reference bothAtoms bound calls m ∧
      isFinal bothAtoms m = true ∧ traceOf bothAtoms (calls.map Prod.fst) = ["A", "B"] := by
  obtain ⟨⟨⟩, hvalid⟩ := Fallible.exists_eq_ok_of_isOk (x := validateModel bothAtoms)
    (by decide +kernel)
  have hsamples : (sampleLinearizations .first bothAtoms 2 "seed").1 = [["A", "B"], ["A", "B"]] := by
    decide +kernel
  have honce : RunsOnce bothAtoms := by
    refine ⟨by decide, fun e he => absurd he (Finset.notMem_empty e), Fin.forall_fin_two.mpr ⟨?_, ?_⟩⟩
    · exact ⟨fun _ hf => absurd hf nofun, trivial⟩
    · exact ⟨fun _ hf => absurd hf nofun, trivial⟩
  refine ⟨hsamples, samples_are_runs .reference .first hvalid honce 2 "seed" ["A", "B"] ?_⟩
  rw [hsamples]
  exact List.mem_cons_self

end GymAct.Powl
