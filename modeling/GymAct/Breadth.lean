import Mathlib.Data.List.Induction
import Mathlib.Data.List.Nodup
import Mathlib.Data.List.Perm.Subperm
import Mathlib.Logic.Function.Basic

/-!
# Breadth-first order

A search visits the nodes that can be reached from a start, nearer ones first : `visits`. It
keeps the depth at which it first queued a node, and queues a node again only at a smaller
depth. Since depths never fall along the queue, this never happens (`Searched.reach`), so every
node is visited once.

`visits_order` : with fuel for every node of a finite graph, the visits are an `Order` from the
start : each node once, with whatever follows a visited node, and each after one that it
follows.
-/

namespace Breadth

variable {α : Type*}

/-- An order to visit the nodes in, from a start on. -/
structure Order (follows : α → α → Prop) (start : α) (nodes : List α) : Prop where
  nodup : nodes.Nodup
  head : ∃ rest, nodes = start :: rest
  closed : ∀ a b, b ∈ nodes → follows a b → a ∈ nodes
  parent : ∀ pre a post, nodes = pre ++ a :: post → a ≠ start → ∃ b ∈ pre, follows a b

section Orders

variable {follows : α → α → Prop} {start a : α} {nodes pre post : List α}

theorem Order.start_mem (horder : Order follows start nodes) : start ∈ nodes := by
  obtain ⟨rest, rfl⟩ := horder.head
  exact List.mem_cons_self

theorem Order.pre_eq_nil (horder : Order follows start nodes) (h : nodes = pre ++ start :: post) :
    pre = [] := by
  obtain ⟨rest, hrest⟩ := horder.head
  have hnodup := h ▸ horder.nodup
  cases pre with
  | nil => rfl
  | cons b pre =>
    obtain rfl : b = start := by
      rw [h] at hrest
      exact (List.cons.inj hrest).1
    exact absurd (List.mem_cons_self) fun hmem =>
      (List.nodup_append'.mp hnodup).2.2 hmem List.mem_cons_self

/-- What holds of a node if it holds of the nodes before it. -/
theorem prefix_induction {P : α → Prop}
    (hstep : ∀ pre a post, nodes = pre ++ a :: post → (∀ b ∈ pre, P b) → P a) (ha : a ∈ nodes) :
    P a := by
  have hall : ∀ pre post, nodes = pre ++ post → ∀ b ∈ pre, P b := by
    intro pre
    induction pre using List.reverseRecOn with
    | nil => exact fun _ _ b hb => absurd hb List.not_mem_nil
    | append_singleton pre b ih =>
      intro post h c hc
      rw [List.append_assoc, List.singleton_append] at h
      rcases List.mem_append.mp hc with hc | hc
      · exact ih _ h c hc
      · obtain rfl := List.mem_singleton.mp hc
        exact hstep pre c post h (ih _ h)
  exact hall nodes [] (List.append_nil _).symm a ha

end Orders

/-- Nodes to visit with their depths, and the depth at which each node was last queued. -/
structure Frontier (α : Type*) where
  queue : List (α × ℕ)
  seen : α → Option ℕ

variable [DecidableEq α]

/-- A node is queued if it is new, or nearer than before. -/
def Frontier.reach (depth : ℕ) (f : Frontier α) (a : α) : Frontier α :=
  if ∀ prior ∈ f.seen a, depth < prior then
    ⟨f.queue ++ [(a, depth)], Function.update f.seen a (some depth)⟩
  else f

variable (next : α → List α)

/-- The frontier after a node is taken from the queue. -/
def Frontier.spread (a : α) (depth : ℕ) (f : Frontier α) : Frontier α :=
  (next a).foldl (Frontier.reach (depth + 1)) f

def Frontier.start (a : α) : Frontier α := ⟨[(a, 0)], Function.update (fun _ => none) a (some 0)⟩

/-- The nodes in the order in which they are taken from the queue. -/
def visits : ℕ → Frontier α → List α
  | 0, _ => []
  | fuel + 1, f =>
    match f.queue with
    | [] => []
    | (a, depth) :: rest => a :: visits fuel (Frontier.spread next a depth ⟨rest, f.seen⟩)

/-- The frontier in the end. -/
def after : ℕ → Frontier α → Frontier α
  | 0, f => f
  | fuel + 1, f =>
    match f.queue with
    | [] => f
    | (a, depth) :: rest => after fuel (Frontier.spread next a depth ⟨rest, f.seen⟩)

/-- What a search keeps : the nodes taken, the queue, and a depth that no queued node is below
and no seen node is more than one above. -/
structure Searched (start : α) (taken : List α) (depth : ℕ) (f : Frontier α) : Prop where
  nodup : (taken ++ f.queue.map Prod.fst).Nodup
  head : ∃ rest, taken ++ f.queue.map Prod.fst = start :: rest
  seen_iff : ∀ a, f.seen a ≠ none ↔ a ∈ taken ++ f.queue.map Prod.fst
  seen_queue : ∀ e ∈ f.queue, f.seen e.1 = some e.2
  sorted : (f.queue.map Prod.snd).Pairwise (· ≤ ·)
  low : ∀ e ∈ f.queue, depth ≤ e.2
  high : ∀ a d, f.seen a = some d → d ≤ depth + 1
  parent : ∀ pre a post, taken ++ f.queue.map Prod.fst = pre ++ a :: post → a ≠ start →
    ∃ b ∈ pre, a ∈ next b

variable {next} {start a b : α} {taken : List α} {depth : ℕ} {f : Frontier α}

theorem searched_start (a : α) : Searched next a [] 0 (Frontier.start a) where
  nodup := List.nodup_singleton a
  head := ⟨[], rfl⟩
  seen_iff b := by
    by_cases h : b = a <;> simp [Frontier.start, h]
  seen_queue e he := by
    obtain rfl := List.mem_singleton.mp he
    simp [Frontier.start]
  sorted := List.pairwise_singleton _ _
  low _ _ := Nat.zero_le _
  high b d h := by
    by_cases hb : b = a
    · subst hb
      simp only [Frontier.start, Function.update_self] at h
      obtain rfl := Option.some.inj h
      exact Nat.zero_le _
    · simp only [Frontier.start, Function.update_of_ne hb] at h
      cases h
  parent pre b post h hb := by
    cases pre with
    | nil => exact absurd (List.cons.inj h).1.symm hb
    | cons c pre => exact absurd (List.cons.inj h).2 (by simp)

/-- What is seen after some nodes are reached was seen, or is one of them. -/
theorem seen_foldl_reach {nodes : List α} {d : ℕ}
    (h : (nodes.foldl (Frontier.reach d) f).seen b ≠ none) : f.seen b ≠ none ∨ b ∈ nodes := by
  induction nodes generalizing f with
  | nil => exact Or.inl h
  | cons a nodes ih =>
    rcases ih h with hb | hb
    · unfold Frontier.reach at hb
      split_ifs at hb
      · by_cases hba : b = a
        · exact Or.inr (hba ▸ List.mem_cons_self)
        · simp only [Function.update_of_ne hba] at hb
          exact Or.inl hb
      · exact Or.inl hb
    · exact Or.inr (List.mem_cons_of_mem _ hb)

/-- A node that was seen is not queued again. -/
theorem Searched.reach_of_seen (h : Searched next start taken depth f) (ha : f.seen a ≠ none) :
    f.reach (depth + 1) a = f := by
  obtain ⟨d, hd⟩ := Option.ne_none_iff_exists'.mp ha
  have hle := h.high a d hd
  rw [Frontier.reach, if_neg]
  intro hall
  have := hall d hd
  omega

/-- What is next to a taken node is seen, and the search goes on. -/
theorem Searched.reach (h : Searched next start taken depth f) (hb : b ∈ taken)
    (ha : a ∈ next b) : Searched next start taken depth (f.reach (depth + 1) a) ∧
      (∀ c, f.seen c ≠ none → (f.reach (depth + 1) a).seen c ≠ none) ∧
      (f.reach (depth + 1) a).seen a ≠ none := by
  by_cases hseen : f.seen a = none
  · have hreach : f.reach (depth + 1) a =
        ⟨f.queue ++ [(a, depth + 1)], Function.update f.seen a (some (depth + 1))⟩ := by
      rw [Frontier.reach, if_pos]
      simp [hseen]
    have hnew : a ∉ taken ++ f.queue.map Prod.fst := fun hmem => (h.seen_iff a).mpr hmem hseen
    have hqueue : taken ++ (f.queue ++ [(a, depth + 1)]).map Prod.fst =
        (taken ++ f.queue.map Prod.fst) ++ [a] := by
      simp
    rw [hreach]
    refine ⟨⟨?_, ?_, ?_, ?_, ?_, ?_, ?_, ?_⟩, ?_, ?_⟩
    · rw [hqueue]
      exact List.nodup_append'.mpr ⟨h.nodup, List.nodup_singleton a,
        fun c hc hca => hnew (List.mem_singleton.mp hca ▸ hc)⟩
    · obtain ⟨rest, hrest⟩ := h.head
      exact ⟨rest ++ [a], by rw [hqueue, hrest, List.cons_append]⟩
    · intro c
      rw [hqueue, List.mem_append, List.mem_singleton, ← h.seen_iff c]
      by_cases hc : c = a <;> simp [hc]
    · intro e he
      rcases List.mem_append.mp he with he | he
      · have hne : e.1 ≠ a := fun heq =>
          hnew (List.mem_append_right _ (heq ▸ List.mem_map_of_mem he))
        exact (Function.update_of_ne hne _ _).trans (h.seen_queue e he)
      · obtain rfl := List.mem_singleton.mp he
        exact Function.update_self _ _ _
    · rw [List.map_append, List.pairwise_append]
      refine ⟨h.sorted, List.pairwise_singleton _ _, fun x hx y hy => ?_⟩
      obtain ⟨e, he, rfl⟩ := List.mem_map.mp hx
      obtain rfl := List.mem_singleton.mp hy
      exact h.high e.1 e.2 (h.seen_queue e he)
    · intro e he
      rcases List.mem_append.mp he with he | he
      · exact h.low e he
      · obtain rfl := List.mem_singleton.mp he
        exact Nat.le_succ depth
    · intro c d hd
      by_cases hc : c = a
      · subst hc
        dsimp only at hd
        rw [Function.update_self] at hd
        exact Nat.le_of_eq (Option.some.inj hd).symm
      · dsimp only at hd
        rw [Function.update_of_ne hc] at hd
        exact h.high c d hd
    · intro pre c post heq hc
      rw [hqueue] at heq
      rcases List.eq_nil_or_concat post with rfl | ⟨post', x, rfl⟩
      · -- the new node is the last, and its parent was taken
        obtain ⟨hpre, hlast⟩ := List.append_inj' heq rfl
        obtain rfl : a = c := (List.cons.inj hlast).1
        exact ⟨b, hpre ▸ List.mem_append_left _ hb, ha⟩
      · rw [List.concat_eq_append, ← List.cons_append, ← List.append_assoc] at heq
        exact h.parent pre c post' (List.append_inj' heq rfl).1 hc
    · intro c hc
      by_cases hca : c = a
      · simp [hca]
      · simpa only [Function.update_of_ne hca]
    · simp
  · rw [h.reach_of_seen hseen]
    exact ⟨h, fun c hc => hc, hseen⟩

/-- A taken node's neighbours are all seen. -/
theorem Searched.foldl_reach (hb : b ∈ taken) : ∀ {nodes : List α} {f : Frontier α},
    Searched next start taken depth f → (∀ a ∈ nodes, a ∈ next b) →
      Searched next start taken depth (nodes.foldl (Frontier.reach (depth + 1)) f) ∧
      (∀ c, f.seen c ≠ none → (nodes.foldl (Frontier.reach (depth + 1)) f).seen c ≠ none) ∧
      ∀ a ∈ nodes, (nodes.foldl (Frontier.reach (depth + 1)) f).seen a ≠ none
  | [], _, h, _ => ⟨h, fun _ hc => hc, fun _ ha => absurd ha List.not_mem_nil⟩
  | a :: nodes, f, h, hall => by
    obtain ⟨hreach, hkeep, ha⟩ := h.reach hb (hall a List.mem_cons_self)
    obtain ⟨hfold, hkeep', hnodes⟩ :=
      foldl_reach hb hreach fun c hc => hall c (List.mem_cons_of_mem _ hc)
    refine ⟨hfold, fun c hc => hkeep' c (hkeep c hc), fun c hc => ?_⟩
    rcases List.mem_cons.mp hc with rfl | hc
    · exact hkeep' c ha
    · exact hnodes c hc

omit [DecidableEq α] in
/-- The first node of the queue is taken. -/
theorem Searched.take {rest : List (α × ℕ)} {d : ℕ} (h : Searched next start taken depth f)
    (hqueue : f.queue = (a, d) :: rest) :
    Searched next start (taken ++ [a]) d ⟨rest, f.seen⟩ := by
  have hsame : taken ++ [a] ++ rest.map Prod.fst = taken ++ f.queue.map Prod.fst := by
    simp [hqueue]
  have hd : depth ≤ d := h.low (a, d) (hqueue ▸ List.mem_cons_self)
  have hsorted := h.sorted
  rw [hqueue, List.map_cons, List.pairwise_cons] at hsorted
  refine ⟨hsame ▸ h.nodup, hsame ▸ h.head, fun c => hsame ▸ h.seen_iff c, fun e he => ?_, hsorted.2,
    fun e he => ?_, fun c d' hc => ?_, hsame ▸ h.parent⟩
  · exact h.seen_queue e (hqueue ▸ List.mem_cons_of_mem _ he)
  · exact hsorted.1 e.2 (List.mem_map_of_mem he)
  · have := h.high c d' hc
    omega

omit [DecidableEq α] in
/-- A search whose queue is empty has visited everything in order. -/
theorem Searched.order (h : Searched next start taken depth f) (hqueue : f.queue = [])
    (hclosed : ∀ a ∈ taken, ∀ b ∈ next a, f.seen b ≠ none) :
    Order (fun a b => a ∈ next b) start taken := by
  have hsame : taken ++ f.queue.map Prod.fst = taken := by simp [hqueue]
  refine ⟨hsame ▸ h.nodup, ?_, fun a b hb ha => ?_, ?_⟩
  · have hhead := h.head
    rwa [hsame] at hhead
  · have hmem := (h.seen_iff a).mp (hclosed b hb a ha)
    rwa [hsame] at hmem
  · have hparent := h.parent
    rwa [hsame] at hparent

/-- With fuel for the nodes that are not taken yet, the search ends, and takes all it sees. -/
theorem Searched.visits {nodes : List α} (hnext : ∀ a ∈ nodes, ∀ b ∈ next a, b ∈ nodes) :
    ∀ {fuel : ℕ} {taken : List α} {depth : ℕ} {f : Frontier α},
      Searched next start taken depth f → (∀ a ∈ taken, ∀ b ∈ next a, f.seen b ≠ none) →
      (∀ a, f.seen a ≠ none → a ∈ nodes) → nodes.length ≤ fuel + taken.length →
      Order (fun a b => a ∈ next b) start (taken ++ Breadth.visits next fuel f) ∧
        (after next fuel f).queue = [] := by
  intro fuel
  induction fuel with
  | zero =>
    intro taken depth f h hclosed hnodes hfuel
    have hsub : taken ++ f.queue.map Prod.fst ⊆ nodes := fun a ha => hnodes a ((h.seen_iff a).mpr ha)
    have hlength := (List.subperm_of_subset h.nodup hsub).length_le
    rw [List.length_append, List.length_map] at hlength
    have hqueue : f.queue = [] := List.length_eq_zero_iff.mp (by omega)
    rw [Breadth.visits, List.append_nil]
    exact ⟨h.order hqueue hclosed, hqueue⟩
  | succ fuel ih =>
    intro taken depth f h hclosed hnodes hfuel
    rw [Breadth.visits, after]
    split
    · next hqueue =>
      rw [List.append_nil]
      exact ⟨h.order hqueue hclosed, hqueue⟩
    · next a d rest hqueue =>
      have ha : a ∈ nodes := by
        refine hnodes a ((h.seen_iff a).mpr (List.mem_append_right _ ?_))
        simp [hqueue]
      have hmem : a ∈ taken ++ [a] := List.mem_append_right taken (List.mem_singleton_self a)
      obtain ⟨hspread, hkeep, hseen⟩ := (h.take hqueue).foldl_reach hmem fun b (hb : b ∈ next a) => hb
      rw [← List.singleton_append, ← List.append_assoc]
      refine ih hspread (fun b hb c hc => ?_) (fun b hb => ?_) ?_
      · rcases List.mem_append.mp hb with hb | hb
        · exact hkeep c (hclosed b hb c hc)
        · obtain rfl := List.mem_singleton.mp hb
          exact hseen c hc
      · rcases seen_foldl_reach hb with hb | hb
        · exact hnodes b hb
        · exact hnext a ha b hb
      · rw [List.length_append, List.length_singleton]
        omega

/-- The visits of a finite graph from one of its nodes are in order, and leave nothing queued. -/
theorem visits_order {nodes : List α} (hnext : ∀ a ∈ nodes, ∀ b ∈ next a, b ∈ nodes)
    (hstart : start ∈ nodes) :
    Order (fun a b => a ∈ next b) start (visits next nodes.length (Frontier.start start)) ∧
      (after next nodes.length (Frontier.start start)).queue = [] := by
  refine Searched.visits hnext (searched_start start) (fun a ha => absurd ha List.not_mem_nil)
    (fun a ha => ?_) (Nat.le_add_right _ _)
  have hsearched : Searched next start [] 0 (Frontier.start start) := searched_start start
  exact List.mem_singleton.mp ((hsearched.seen_iff a).mp ha) ▸ hstart

end Breadth
