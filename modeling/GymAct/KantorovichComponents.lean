import GymAct.KantorovichVerifier

/-!
# Tight components

`deriveTightComponents` labels the points that lanes in use connect with one component, and with
values that add up to the cost of each of these lanes (`Joined`). A component's values are then
those of any prices that are met on the lanes in use, up to an offset of the component
(`Agrees`).

`deriveTightComponents_spec` : every point is labelled, or a refusal is raised and no prices are
met on all lanes in use. A loop keeps this form of statement (`Decides`) when each of its steps
does.
-/

namespace GymAct.Kantorovich

open Finset

/-! ## Checks that decide -/

/-- A check that succeeds with `P`, or else refuses, and then `S` does not hold. -/
def Decides {α : Type} (S : Prop) (P : α → Prop) : Checked α → Prop
  | .ok a => P a
  | .error e => (∃ r, e = .refusal r) ∧ ¬S

namespace Decides

variable {α β σ : Type} {S S' : Prop} {P Q : α → Prop} {x : Checked α}

theorem mono (h : Decides S P x) (hS : S' → S) (hP : ∀ a, P a → Q a) : Decides S' Q x := by
  cases x with
  | ok a => exact hP a h
  | error e => exact ⟨h.1, fun hS' => h.2 (hS hS')⟩

theorem bind {f : α → Checked β} {Q : β → Prop} (h : Decides S P x)
    (hf : ∀ a, P a → Decides S Q (f a)) : Decides S Q (x >>= f) := by
  cases x with
  | ok a => exact hf a h
  | error e => exact h

theorem of_require {p : Prop} [Decidable p] {code detail : String} (h : S → p) :
    Decides S (fun _ => p) (require p code detail) := by
  unfold require
  split
  · rename_i hp
    exact hp
  · rename_i hp
    exact ⟨⟨_, rfl⟩, fun hS => hp (h hS)⟩

theorem of_forM {l : List α} {p : α → Prop} [DecidablePred p] {code : String}
    {detail : α → String} (h : S → ∀ a ∈ l, p a) :
    Decides S (fun _ => ∀ a ∈ l, p a) (l.forM fun a => require (p a) code (detail a)) := by
  induction l with
  | nil => exact fun _ ha => absurd ha List.not_mem_nil
  | cons a l ih =>
    refine (Decides.of_require fun hS => h hS a List.mem_cons_self).bind fun _ ha => ?_
    refine (ih fun hS b hb => h hS b (List.mem_cons_of_mem _ hb)).mono id fun _ hl => ?_
    exact List.forall_mem_cons.mpr ⟨ha, hl⟩

/-- An invariant of the items that a loop is done with. -/
theorem foldlM {I : List α → σ → Prop} {f : σ → α → Checked σ} {l : List α} {s : σ}
    (hinit : I [] s)
    (hstep : ∀ pre a s, a ∈ l → I pre s → Decides S (I (pre ++ [a])) (f s a)) :
    Decides S (I l) (l.foldlM f s) := by
  suffices hrest : ∀ (rest pre : List α) (s : σ), (∀ a ∈ rest, a ∈ l) → I pre s →
      Decides S (I (pre ++ rest)) (rest.foldlM f s) from hrest l [] s (fun _ ha => ha) hinit
  intro rest
  induction rest with
  | nil =>
    intro pre s _ h
    rw [List.append_nil]
    exact h
  | cons a rest ih =>
    intro pre s hmem h
    rw [List.foldlM_cons, List.append_cons]
    exact (hstep pre a s (hmem a List.mem_cons_self) h).bind fun s' h' =>
      ih _ s' (fun b hb => hmem b (List.mem_cons_of_mem _ hb)) h'

end Decides

variable {plan : TransportPlan} {metric : GroundMetric} {S T : List String} {a b node : Node}
  {label label' : Labels} {queue : List Node} {k : ℕ} {value : ℚ} {ψ : Node → ℚ}

/-! ## Neighbours -/

theorem exists_entry_iff {x y : String} :
    (∃ e ∈ plan.flow.entries, 0 < e.2 ∧ e.1 = (x, y)) ↔ 0 < plan.amount x y := by
  constructor
  · rintro ⟨⟨l, q⟩, he, hpos, rfl⟩
    have hq : plan.flow.lookup (x, y) = some q := AList.mem_lookup_iff.mpr he
    simpa [TransportPlan.amount, price, hq] using hpos
  · intro h
    unfold TransportPlan.amount price at h
    cases hq : plan.flow.lookup (x, y) with
    | none => simp [hq] at h
    | some q => exact ⟨⟨(x, y), q⟩, AList.mem_lookup_iff.mp hq, by simpa [hq] using h, rfl⟩

theorem mem_neighbors_source {x : String} :
    b ∈ neighbors plan (.source x) ↔ ∃ y, b = .target y ∧ 0 < plan.amount x y := by
  simp only [neighbors, List.mem_map, List.mem_filter, decide_eq_true_eq, ← exists_entry_iff]
  constructor
  · rintro ⟨e, ⟨he, hpos, rfl⟩, rfl⟩
    exact ⟨e.1.2, rfl, e, he, hpos, rfl⟩
  · rintro ⟨y, rfl, e, he, hpos, heq⟩
    exact ⟨e, ⟨he, hpos, congrArg Prod.fst heq⟩, by rw [heq]⟩

theorem mem_neighbors_target {y : String} :
    a ∈ neighbors plan (.target y) ↔ ∃ x, a = .source x ∧ 0 < plan.amount x y := by
  simp only [neighbors, List.mem_map, List.mem_filter, decide_eq_true_eq, ← exists_entry_iff]
  constructor
  · rintro ⟨e, ⟨he, hpos, rfl⟩, rfl⟩
    exact ⟨e.1.1, rfl, e, he, hpos, rfl⟩
  · rintro ⟨x, rfl, e, he, hpos, heq⟩
    exact ⟨e, ⟨he, hpos, congrArg Prod.snd heq⟩, by rw [heq]⟩

theorem mem_neighbors_comm : b ∈ neighbors plan a ↔ a ∈ neighbors plan b := by
  cases a <;> cases b <;> simp [mem_neighbors_source, mem_neighbors_target]

theorem across_comm (a b : Node) : across metric a b = across metric b a := by
  cases a <;> cases b <;> rfl

/-- An offset lowers the value of a source and raises that of a target. -/
def sign : Node → ℚ
  | .source _ => -1
  | .target _ => 1

theorem sign_neighbor (h : b ∈ neighbors plan a) : sign b = -sign a := by
  cases a with
  | source x =>
    obtain ⟨y, rfl, -⟩ := mem_neighbors_source.mp h
    simp [sign]
  | target y =>
    obtain ⟨x, rfl, -⟩ := mem_neighbors_target.mp h
    rfl

/-! ## Labels -/

/-- Values of the points that add up to the cost of each lane in use. -/
def Meets (plan : TransportPlan) (metric : GroundMetric) (ψ : Node → ℚ) : Prop :=
  ∀ a b, b ∈ neighbors plan a → ψ a + ψ b = across metric a b

/-- The labels are the values, up to an offset of each component. -/
def Agrees (ψ : Node → ℚ) (label : Labels) : Prop :=
  ∃ s : ℕ → ℚ, ∀ a k p, label a = some (k, p) → p = ψ a + sign a * s k

/-- Two points of one component, with values that add up to what is between them. -/
def Joined (metric : GroundMetric) (label : Labels) (a b : Node) : Prop :=
  ∃ k p q, label a = some (k, p) ∧ label b = some (k, q) ∧ p + q = across metric a b

/-- Labels are only added. -/
def Extends (label label' : Labels) : Prop := ∀ a l, label a = some l → label' a = some l

theorem Extends.refl (label : Labels) : Extends label label := fun _ _ h => h

theorem Extends.trans {label'' : Labels} (h : Extends label label') (h' : Extends label' label'') :
    Extends label label'' := fun a l hl => h' a l (h a l hl)

theorem Extends.ne_none (h : Extends label label') (ha : label a ≠ none) : label' a ≠ none := by
  obtain ⟨l, hl⟩ := Option.ne_none_iff_exists'.mp ha
  simp [h a l hl]

theorem extends_update (h : label a = none) (l : ℕ × ℚ) :
    Extends label (Function.update label a (some l)) := fun b l' hb => by
  rw [Function.update_of_ne (fun heq => by simp [heq, h] at hb)]
  exact hb

theorem Joined.extends (h : Joined metric label a b) (hle : Extends label label') :
    Joined metric label' a b := by
  obtain ⟨k, p, q, ha, hb, heq⟩ := h
  exact ⟨k, p, q, hle _ _ ha, hle _ _ hb, heq⟩

theorem Joined.symm (h : Joined metric label a b) : Joined metric label b a := by
  obtain ⟨k, p, q, ha, hb, heq⟩ := h
  exact ⟨k, q, p, hb, ha, by rw [add_comm, heq, across_comm]⟩

/-- The labels while component `k` grows : what is not in the queue is joined to its
neighbours. -/
structure Growing (plan : TransportPlan) (metric : GroundMetric) (label : Labels)
    (queue : List Node) (k : ℕ) : Prop where
  le : ∀ a j p, label a = some (j, p) → j ≤ k
  queued : ∀ a ∈ queue, ∃ p, label a = some (k, p)
  joined : ∀ a b, b ∈ neighbors plan a → label a ≠ none → a ∉ queue → Joined metric label a b
  agrees : ∀ ψ, Meets plan metric ψ → Agrees ψ label

/-- A neighbour that has a label has it from this component. -/
theorem Growing.component_eq (h : Growing plan metric label (node :: queue) k)
    (hb : b ∈ neighbors plan node) {j : ℕ} {q : ℚ} (hlabel : label b = some (j, q)) : j = k := by
  by_contra hne
  have hnot : b ∉ node :: queue := fun hmem => by
    obtain ⟨p, hp⟩ := h.queued b hmem
    rw [hlabel] at hp
    exact hne (congrArg Prod.fst (Option.some.inj hp))
  obtain ⟨j', p, q', hb', hnode, -⟩ :=
    h.joined b node (mem_neighbors_comm.mp hb) (by simp [hlabel]) hnot
  obtain ⟨p', hp'⟩ := h.queued node List.mem_cons_self
  rw [hlabel] at hb'
  rw [hnode] at hp'
  have hj : j = j' := congrArg Prod.fst (Option.some.inj hb')
  have hk : j' = k := congrArg Prod.fst (Option.some.inj hp')
  exact hne (hj.trans hk)

/-- A node taken from the queue once it is joined to its neighbours. -/
theorem Growing.tail (h : Growing plan metric label (node :: queue) k)
    (hjoined : ∀ b ∈ neighbors plan node, Joined metric label node b) :
    Growing plan metric label queue k where
  le := h.le
  queued := fun a ha => h.queued a (List.mem_cons_of_mem _ ha)
  joined := fun a b hb ha hnot => by
    rcases eq_or_ne a node with rfl | hne
    · exact hjoined b hb
    · exact h.joined a b hb ha (by simp [hne, hnot])
  agrees := h.agrees

/-- The points without a label. -/
def unlabelled (S T : List String) (label : Labels) : Finset Node :=
  ((S.toFinset.image Node.source) ∪ T.toFinset.image Node.target).filter fun a => label a = none

theorem mem_unlabelled_source {x : String} :
    Node.source x ∈ unlabelled S T label ↔ x ∈ S ∧ label (.source x) = none := by
  simp [unlabelled]

theorem mem_unlabelled_target {y : String} :
    Node.target y ∈ unlabelled S T label ↔ y ∈ T ∧ label (.target y) = none := by
  simp [unlabelled]

theorem card_unlabelled_le (S T : List String) (label : Labels) :
    (unlabelled S T label).card ≤ S.length + T.length := by
  refine (card_filter_le _ _).trans ((card_union_le _ _).trans ?_)
  exact Nat.add_le_add (card_image_le.trans S.toFinset_card_le)
    (card_image_le.trans T.toFinset_card_le)

theorem card_unlabelled_update (h : a ∈ unlabelled S T label) (l : ℕ × ℚ) :
    (unlabelled S T (Function.update label a (some l))).card + 1 ≤ (unlabelled S T label).card := by
  have hsub : unlabelled S T (Function.update label a (some l)) ⊂ unlabelled S T label := by
    refine (ssubset_iff_of_subset fun b hb => ?_).mpr ⟨a, h, by simp [unlabelled]⟩
    simp only [unlabelled, mem_filter] at hb ⊢
    refine ⟨hb.1, ?_⟩
    rcases eq_or_ne b a with rfl | hne
    · simp at hb
    · simpa [Function.update_of_ne hne] using hb.2
  exact card_lt_card hsub

/-! ## One component -/

/-- The labels and the queue once `node` has met some of its neighbours. -/
structure Spreading (plan : TransportPlan) (metric : GroundMetric) (S T : List String)
    (label : Labels) (queue : List Node) (k : ℕ) (node : Node) (met : List Node)
    (state : Labels × List Node) : Prop where
  growing : Growing plan metric state.1 (node :: state.2) k
  le : Extends label state.1
  joined : ∀ b ∈ met, Joined metric state.1 node b
  size : state.2.length + (unlabelled S T state.1).card ≤
    queue.length + (unlabelled S T label).card

theorem spreading_init (h : Growing plan metric label (node :: queue) k) :
    Spreading plan metric S T label queue k node [] (label, queue) where
  growing := h
  le := Extends.refl label
  joined := fun _ hb => absurd hb List.not_mem_nil
  size := le_rfl

/-- A neighbour without a label gets the one that the lane asks for. -/
theorem Growing.grow (h : Growing plan metric label (node :: queue) k)
    (hnode : label node = some (k, value)) (hb : b ∈ neighbors plan node)
    (hnone : label b = none) :
    Growing plan metric (Function.update label b (some (k, across metric node b - value)))
      (node :: (queue ++ [b])) k := by
  have hle := extends_update hnone (k, across metric node b - value)
  refine ⟨fun a j p ha => ?_, fun a ha => ?_, fun a c hc ha hnot => ?_, fun ψ hψ => ?_⟩
  · rcases eq_or_ne a b with rfl | hne
    · rw [Function.update_self] at ha
      exact (congrArg Prod.fst (Option.some.inj ha)).ge
    · rw [Function.update_of_ne hne] at ha
      exact h.le a j p ha
  · rcases eq_or_ne a b with rfl | hne
    · exact ⟨_, Function.update_self ..⟩
    · obtain ⟨p, hp⟩ := h.queued a (by simpa [hne] using ha)
      exact ⟨p, hle a _ hp⟩
  · have hne : a ≠ b := fun heq => hnot (by simp [heq])
    rw [Function.update_of_ne hne] at ha
    exact (h.joined a c hc ha fun hmem => hnot (by simp_all)).extends hle
  · obtain ⟨s, hs⟩ := h.agrees ψ hψ
    refine ⟨s, fun a j p ha => ?_⟩
    rcases eq_or_ne a b with rfl | hne
    · rw [Function.update_self] at ha
      obtain ⟨rfl, rfl⟩ := Prod.mk.inj (Option.some.inj ha)
      rw [← hψ node a hb, sign_neighbor hb, hs node k value hnode]
      ring
    · rw [Function.update_of_ne hne] at ha
      exact hs a j p ha

theorem Spreading.grow {state : Labels × List Node} {met : List Node}
    (h : Spreading plan metric S T label queue k node met state)
    (hnode : state.1 node = some (k, value)) (hb : b ∈ neighbors plan node)
    (hmem : b ∈ unlabelled S T state.1) :
    Spreading plan metric S T label queue k node (met ++ [b])
      (Function.update state.1 b (some (k, across metric node b - value)), state.2 ++ [b]) := by
  have hnone : state.1 b = none := (mem_filter.mp hmem).2
  have hle := extends_update hnone (k, across metric node b - value)
  refine ⟨h.growing.grow hnode hb hnone, h.le.trans hle, fun c hc => ?_, ?_⟩
  · rcases List.mem_append.mp hc with hc | hc
    · exact (h.joined c hc).extends hle
    · rw [List.mem_singleton.mp hc]
      exact ⟨k, value, _, hle _ _ hnode, Function.update_self .., by ring⟩
  · have hsize := h.size
    have hless := card_unlabelled_update hmem (k, across metric node b - value)
    simp only [List.length_append, List.length_singleton]
    omega

/-- A neighbour with a label is joined to the node if the values add up, and if they do not no
values meet all lanes in use. -/
theorem visit_spec {state : Labels × List Node} {met : List Node}
    (h : Spreading plan metric S T label queue k node met state)
    (hnode : label node = some (k, value)) (hb : b ∈ neighbors plan node)
    (hmem : state.1 b = none → b ∈ unlabelled S T state.1) :
    Decides (∃ ψ, Meets plan metric ψ)
      (Spreading plan metric S T label queue k node (met ++ [b]))
      (visit metric k node value state b) := by
  have hnode' := h.le _ _ hnode
  unfold visit
  cases hlabel : state.1 b with
  | none => exact h.grow hnode' hb (hmem hlabel)
  | some l =>
    obtain ⟨j, known⟩ := l
    obtain rfl := h.growing.component_eq hb hlabel
    simp only
    split
    · rename_i hne
      refine ⟨⟨_, rfl⟩, fun ⟨ψ, hψ⟩ => hne ?_⟩
      obtain ⟨s, hs⟩ := h.growing.agrees ψ hψ
      rw [hs b j known hlabel, hs node j value hnode', ← hψ node b hb, sign_neighbor hb]
      ring
    · rename_i heq
      refine ⟨h.growing, h.le, fun c hc => ?_, h.size⟩
      rcases List.mem_append.mp hc with hc | hc
      · exact h.joined c hc
      · rw [List.mem_singleton.mp hc]
        exact ⟨j, value, known, hnode', hlabel, by rw [not_not.mp heq]; ring⟩

section Support

variable (hknown : ∀ x y, 0 < plan.amount x y → x ∈ S ∧ y ∈ T)

include hknown

theorem mem_unlabelled_of_neighbor (hb : b ∈ neighbors plan a) (hnone : label b = none) :
    b ∈ unlabelled S T label := by
  cases b with
  | source x =>
    obtain ⟨y, -, hpos⟩ := mem_neighbors_source.mp (mem_neighbors_comm.mp hb)
    exact mem_unlabelled_source.mpr ⟨(hknown x y hpos).1, hnone⟩
  | target y =>
    obtain ⟨x, -, hpos⟩ := mem_neighbors_target.mp (mem_neighbors_comm.mp hb)
    exact mem_unlabelled_target.mpr ⟨(hknown x y hpos).2, hnone⟩

/-- The queue is emptied, with fuel for every point without a label. -/
theorem drain_spec (fuel : ℕ) (h : Growing plan metric label queue k)
    (hfuel : queue.length + (unlabelled S T label).card ≤ fuel) :
    Decides (∃ ψ, Meets plan metric ψ)
      (fun state => Growing plan metric state.1 [] k ∧ Extends label state.1)
      (drain plan metric k fuel (label, queue)) := by
  induction fuel generalizing label queue with
  | zero =>
    obtain rfl : queue = [] := List.length_eq_zero_iff.mp (by omega)
    exact ⟨h, Extends.refl label⟩
  | succ fuel ih =>
    cases queue with
    | nil => exact ⟨h, Extends.refl label⟩
    | cons node queue =>
      obtain ⟨value, hvalue⟩ := h.queued node List.mem_cons_self
      unfold drain
      rw [hvalue]
      refine (Decides.foldlM (I := Spreading plan metric S T label queue k node)
        (spreading_init h) fun met b state hb hspread =>
          visit_spec hspread hvalue hb (mem_unlabelled_of_neighbor hknown hb)).bind
        fun state hspread => ?_
      have hsize := hspread.size
      rw [List.length_cons] at hfuel
      exact (ih (hspread.growing.tail hspread.joined) (by omega)).mono id
        fun _ h => ⟨h.1, hspread.le.trans h.2⟩

end Support

/-! ## All components -/

/-- The labels of so many whole components. -/
structure Closed (plan : TransportPlan) (metric : GroundMetric) (c : TightComponents) : Prop where
  lt : ∀ a j p, c.label a = some (j, p) → j < c.count
  joined : ∀ a b, b ∈ neighbors plan a → c.label a ≠ none → Joined metric c.label a b
  agrees : ∀ ψ, Meets plan metric ψ → Agrees ψ c.label

variable {c : TightComponents}

theorem closed_init : Closed plan metric ⟨fun _ => none, 0⟩ where
  lt := by simp
  joined := by simp
  agrees := fun _ _ => ⟨fun _ => 0, by simp⟩

/-- A new component keeps the offsets of the others. -/
theorem Closed.agrees_update (h : Closed plan metric c) (hψ : Meets plan metric ψ) (a : Node) :
    Agrees ψ (Function.update c.label a (some (c.count, 0))) := by
  obtain ⟨s, hs⟩ := h.agrees ψ hψ
  refine ⟨Function.update s c.count (-(sign a * ψ a)), fun b j p hb => ?_⟩
  rcases eq_or_ne b a with rfl | hne
  · rw [Function.update_self] at hb
    obtain ⟨rfl, rfl⟩ := Prod.mk.inj (Option.some.inj hb)
    rw [Function.update_self]
    cases b <;> simp [sign]
  · rw [Function.update_of_ne hne] at hb
    rw [Function.update_of_ne (h.lt b j p hb).ne]
    exact hs b j p hb

theorem Closed.lt_update (h : Closed plan metric c) {j : ℕ} {p : ℚ}
    (hb : Function.update c.label a (some (c.count, 0)) b = some (j, p)) : j ≤ c.count := by
  rcases eq_or_ne b a with rfl | hne
  · rw [Function.update_self] at hb
    exact (congrArg Prod.fst (Option.some.inj hb)).ge
  · rw [Function.update_of_ne hne] at hb
    exact (h.lt b j p hb).le

theorem spreadFrom_spec (hknown : ∀ x y, 0 < plan.amount x y → x ∈ S ∧ y ∈ T) {root : String}
    (h : Closed plan metric c) (hroot : root ∈ S) :
    Decides (∃ ψ, Meets plan metric ψ)
      (fun c' => Closed plan metric c' ∧ Extends c.label c'.label ∧
        c'.label (.source root) ≠ none)
      (spreadFrom plan metric (S.length + T.length) c root) := by
  unfold spreadFrom
  split
  · rename_i hsome
    exact ⟨h, Extends.refl _, Option.isSome_iff_ne_none.mp hsome⟩
  · rename_i hnone
    have hfresh : c.label (.source root) = none := by simpa using hnone
    have hle := extends_update hfresh (c.count, 0)
    have hgrowing : Growing plan metric
        (Function.update c.label (.source root) (some (c.count, 0))) [.source root] c.count := by
      refine ⟨fun a j p ha => h.lt_update ha, fun a ha => ?_, fun a b hb ha hnot => ?_,
        fun ψ hψ => h.agrees_update hψ _⟩
      · exact ⟨0, by rw [List.mem_singleton.mp ha, Function.update_self]⟩
      · rw [Function.update_of_ne (by simpa using hnot)] at ha
        exact (h.joined a b hb ha).extends hle
    have hsize := card_unlabelled_update (mem_unlabelled_source.mpr ⟨hroot, hfresh⟩ :
      Node.source root ∈ unlabelled S T c.label) (c.count, 0)
    have hcard := card_unlabelled_le S T c.label
    refine (drain_spec hknown _ hgrowing (by rw [List.length_singleton]; omega)).bind
      fun state hstate => ?_
    refine ⟨⟨fun a j p ha => Nat.lt_succ_of_le (hstate.1.le a j p ha), fun a b hb ha =>
      hstate.1.joined a b hb ha List.not_mem_nil, hstate.1.agrees⟩, hle.trans hstate.2, ?_⟩
    exact hstate.2.ne_none (by simp)

/-- A target without a label has no lane in use once every source has one. -/
theorem alone_spec (hknown : ∀ x y, 0 < plan.amount x y → x ∈ S ∧ y ∈ T) (y : String)
    (h : Closed plan metric c) (hsources : ∀ x ∈ S, c.label (.source x) ≠ none) :
    Closed plan metric (alone c y) ∧ Extends c.label (alone c y).label ∧
      (alone c y).label (.target y) ≠ none := by
  unfold alone
  split
  · rename_i hsome
    exact ⟨h, Extends.refl _, Option.isSome_iff_ne_none.mp hsome⟩
  · rename_i hnone
    have hfresh : c.label (.target y) = none := by simpa using hnone
    have hle := extends_update hfresh (c.count, 0)
    refine ⟨⟨fun a j p ha => Nat.lt_succ_of_le (h.lt_update ha), fun a b hb ha => ?_,
      fun ψ hψ => h.agrees_update hψ _⟩, hle, by simp⟩
    rcases eq_or_ne a (.target y) with rfl | hne
    · obtain ⟨x, rfl, hpos⟩ := mem_neighbors_target.mp hb
      have hjoined := h.joined (.source x) (.target y) (mem_neighbors_comm.mp hb)
        (hsources x (hknown x y hpos).1)
      obtain ⟨_, _, _, -, hy, -⟩ := hjoined
      simp [hfresh] at hy
    · dsimp only at ha
      rw [Function.update_of_ne hne] at ha
      exact (h.joined a b hb ha).extends hle

theorem mem_sortedSet {l : List String} {x : String} : x ∈ sortedSet l ↔ x ∈ l := by
  rw [sortedSet, List.mem_insertionSort, List.mem_dedup]

/-- Every point gets a label, or no values meet all lanes in use. -/
theorem deriveTightComponents_spec (hknown : ∀ x y, 0 < plan.amount x y → x ∈ S ∧ y ∈ T) :
    Decides (∃ ψ, Meets plan metric ψ)
      (fun c => Closed plan metric c ∧ (∀ x ∈ S, c.label (.source x) ≠ none) ∧
        ∀ y ∈ T, c.label (.target y) ≠ none)
      (deriveTightComponents plan metric S T) := by
  have hkeys : (plan.flow.entries.forM fun e =>
      if 0 < e.2 → e.1.1 ∈ S ∧ e.1.2 ∈ T then (.ok () : Checked Unit)
      else .error .keyError) = .ok () := by
    refine forM_eq_ok.mpr fun e he => if_pos fun hpos => ?_
    exact hknown _ _ (exists_entry_iff.mp ⟨e, he, hpos, rfl⟩)
  unfold deriveTightComponents
  rw [hkeys]
  refine (Decides.foldlM (I := fun pre c => Closed plan metric c ∧
    ∀ x ∈ pre, c.label (.source x) ≠ none) ⟨closed_init, by simp⟩
    fun pre x c hx ⟨hclosed, hpre⟩ => ?_).bind fun c ⟨hclosed, hsources⟩ => ?_
  · refine (spreadFrom_spec hknown hclosed (mem_sortedSet.mp hx)).mono id
      fun c' ⟨hclosed', hle, hroot⟩ => ⟨hclosed', fun z hz => ?_⟩
    rcases List.mem_append.mp hz with hz | hz
    · exact hle.ne_none (hpre z hz)
    · rw [List.mem_singleton.mp hz]
      exact hroot
  · have hall : ∀ (l : List String) (c : TightComponents), Closed plan metric c →
        (∀ x ∈ S, c.label (.source x) ≠ none) → Closed plan metric (l.foldl alone c) ∧
          Extends c.label (l.foldl alone c).label ∧
          ∀ y ∈ l, (l.foldl alone c).label (.target y) ≠ none := by
      intro l
      induction l with
      | nil => exact fun c h _ => ⟨h, Extends.refl _, by simp⟩
      | cons y l ih =>
        intro c h hx
        obtain ⟨h', hle, hy⟩ := alone_spec hknown y h hx
        obtain ⟨h'', hle', hl⟩ := ih (alone c y) h' fun x hxS => hle.ne_none (hx x hxS)
        refine ⟨h'', hle.trans hle', fun z hz => ?_⟩
        rcases List.mem_cons.mp hz with rfl | hz
        · exact hle'.ne_none hy
        · exact hl z hz
    have hx : ∀ x ∈ S, c.label (.source x) ≠ none := fun x hx =>
      hsources x (mem_sortedSet.mpr hx)
    obtain ⟨h', hle, hy⟩ := hall (sortedSet T) c hclosed hx
    exact ⟨h', fun x hxS => hle.ne_none (hx x hxS), fun y hyT => hy y (mem_sortedSet.mpr hyT)⟩

end GymAct.Kantorovich
