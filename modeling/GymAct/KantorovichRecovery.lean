import GymAct.KantorovichComponents

/-!
# Recovering prices from a plan

`constructDual` adds an offset for each tight component to the values of its points. The offsets
solve the difference constraints of the lanes between components, which have a solution whenever
there are prices at all, since these differ from the components' values by offsets
(`solves_of_prices`).

So `constructDual` returns prices that are met exactly on every lane in use, or refuses and there
are none (`constructDual_spec`) : it returns for the plans that no other undercuts, and for no
other (`dual_certificates_exact`).
-/

namespace GymAct.Kantorovich

open Finset ShortestLabels

variable {R : Interpreter} {plan : TransportPlan} {source target : FiniteMeasure}
  {metric : GroundMetric} {c : TightComponents} {edges : List (Arc ℕ ℚ)} {ψ : Node → ℚ}

/-! ## Prices -/

/-- Values of the points that are met on every lane in use, and that no lane exceeds. -/
structure Prices (plan : TransportPlan) (source target : FiniteMeasure) (metric : GroundMetric)
    (ψ : Node → ℚ) : Prop where
  meets : Meets plan metric ψ
  dual : ∀ x ∈ source.support, ∀ y ∈ target.support,
    ψ (.source x) + ψ (.target y) ≤ metric.call x y

theorem RightMarginals.known_of_pos (h : RightMarginals source target plan) {x y : String}
    (hpos : 0 < plan.amount x y) : x ∈ source.support ∧ y ∈ target.support := by
  obtain ⟨e, he, -, heq⟩ := exists_entry_iff.mpr hpos
  exact h.known (x, y) (heq ▸ List.mem_map_of_mem he)

/-- Values of the points of both sides. -/
def joined (u v : String → ℚ) : Node → ℚ
  | .source x => u x
  | .target y => v y

/-- Prices as the transportation problem has them. -/
theorem exists_prices_iff (metric : GroundMetric) (h : RightMarginals source target plan) :
    (∃ ψ, Prices plan source target metric ψ) ↔
      ∃ u v, (problem source target metric).Complementary plan.amount u v := by
  constructor
  · rintro ⟨ψ, hψ⟩
    refine ⟨fun x => ψ (.source x), fun y => ψ (.target y), fun x hx y hy => ?_,
      fun x _ y _ hpos => ?_⟩
    · exact hψ.dual x (List.mem_toFinset.mp hx) y (List.mem_toFinset.mp hy)
    · exact hψ.meets _ _ (mem_neighbors_source.mpr ⟨y, rfl, hpos⟩)
  · rintro ⟨u, v, hcomp⟩
    have htight : ∀ x y, 0 < plan.amount x y → u x + v y = metric.call x y := fun x y hpos =>
      hcomp.tight x (List.mem_toFinset.mpr (h.known_of_pos hpos).1) y
        (List.mem_toFinset.mpr (h.known_of_pos hpos).2) hpos
    refine ⟨joined u v, fun a b hb => ?_,
      fun x hx y hy => hcomp.dual x (List.mem_toFinset.mpr hx) y (List.mem_toFinset.mpr hy)⟩
    cases a with
    | source x =>
      obtain ⟨y, rfl, hpos⟩ := mem_neighbors_source.mp hb
      exact htight x y hpos
    | target y =>
      obtain ⟨x, rfl, hpos⟩ := mem_neighbors_target.mp hb
      exact (add_comm _ _).trans (htight x y hpos)

/-! ## Relaxation -/

theorem relaxEdge_eq (d : ℕ → ℚ) (changed : Bool) (e : Arc ℕ ℚ) :
    (fun v => ((relaxEdge (d, changed) e).1 v : WithTop ℚ)) = relax (fun v => (d v : WithTop ℚ)) e ∧
      ((relaxEdge (d, changed) e).2 = false → (relaxEdge (d, changed) e).1 = d ∧
        changed = false) := by
  unfold relaxEdge relax
  by_cases h : d e.src + e.weight < d e.dst
  · have h' : (d e.src : WithTop ℚ) + e.weight < d e.dst := by exact_mod_cast h
    simp only [h, h', if_true]
    refine ⟨funext fun v => ?_, nofun⟩
    rcases eq_or_ne v e.dst with rfl | hne
    · simp
    · simp [hne]
  · have h' : ¬(d e.src : WithTop ℚ) + e.weight < d e.dst := by exact_mod_cast h
    simp only [h, h', if_false]
    exact ⟨trivial, fun hc => ⟨trivial, hc⟩⟩

theorem foldl_relaxEdge_eq (edges : List (Arc ℕ ℚ)) (d : ℕ → ℚ) (changed : Bool) :
    (fun v => ((edges.foldl relaxEdge (d, changed)).1 v : WithTop ℚ)) =
        pass edges (fun v => (d v : WithTop ℚ)) ∧
      ((edges.foldl relaxEdge (d, changed)).2 = false →
        (edges.foldl relaxEdge (d, changed)).1 = d ∧ changed = false) := by
  induction edges generalizing d changed with
  | nil => exact ⟨rfl, fun h => ⟨rfl, h⟩⟩
  | cons e edges ih =>
    obtain ⟨hrelax, hsame⟩ := relaxEdge_eq d changed e
    obtain ⟨hpass, hsame'⟩ := ih (relaxEdge (d, changed) e).1 (relaxEdge (d, changed) e).2
    rw [List.foldl_cons]
    refine ⟨hpass.trans (by rw [hrelax]; rfl), fun h => ?_⟩
    obtain ⟨heq, hfalse⟩ := hsame' h
    obtain ⟨heq', hfalse'⟩ := hsame hfalse
    exact ⟨heq.trans heq', hfalse'⟩

/-- Stopping after a pass that changes nothing leaves out passes that change nothing. -/
theorem relaxAll_eq (edges : List (Arc ℕ ℚ)) (n : ℕ) (d : ℕ → ℚ) :
    (fun v => (relaxAll edges n d v : WithTop ℚ)) =
      (pass edges)^[n] fun v => (d v : WithTop ℚ) := by
  induction n generalizing d with
  | zero => rfl
  | succ n ih =>
    obtain ⟨hpass, hsame⟩ := foldl_relaxEdge_eq edges d false
    rw [Function.iterate_succ_apply, ← hpass, relaxAll]
    split
    · exact ih _
    · rename_i hchanged
      have heq := (hsame (by simpa using hchanged)).1
      rw [heq] at hpass ⊢
      exact (Function.iterate_fixed hpass.symm n).symm

/-! ## Offsets -/

/-- A lane within a component exceeds nothing, and one between two components is an edge. -/
def Counted (metric : GroundMetric) (c : TightComponents) (edges : List (Arc ℕ ℚ))
    (l : String × String) : Prop :=
  ∀ a b p q, c.label (.source l.1) = some (a, p) → c.label (.target l.2) = some (b, q) →
    if a = b then 0 ≤ metric.call l.1 l.2 - p - q
    else ⟨b, a, metric.call l.1 l.2 - p - q⟩ ∈ edges

theorem Counted.mono {edges' : List (Arc ℕ ℚ)} {l : String × String}
    (h : Counted metric c edges l) (hsub : edges ⊆ edges') : Counted metric c edges' l := by
  intro a b p q hp hq
  have hl := h a b p q hp hq
  split at hl
  · rwa [if_pos ‹a = b›]
  · rw [if_neg ‹¬a = b›]
    exact hsub hl

/-- The edges once some lanes are read. -/
structure Bounds (source target : FiniteMeasure) (metric : GroundMetric) (c : TightComponents)
    (read : List (String × String)) (edges : List (Arc ℕ ℚ)) : Prop where
  edge : ∀ e ∈ edges, ∃ x ∈ source.support, ∃ y ∈ target.support, ∃ p q,
    c.label (.source x) = some (e.dst, p) ∧ c.label (.target y) = some (e.src, q) ∧
      e.weight = metric.call x y - p - q
  counted : ∀ l ∈ read, Counted metric c edges l

/-- Prices solve the constraints of the edges by the offsets that take the components' values to
them. -/
theorem solves_of_prices {read : List (String × String)} (hc : Closed plan metric c)
    (hbounds : Bounds source target metric c read edges)
    (hψ : Prices plan source target metric ψ) : ∃ s, Solves edges s := by
  obtain ⟨s, hs⟩ := hc.agrees ψ hψ.meets
  refine ⟨s, fun e he => ?_⟩
  obtain ⟨x, hx, y, hy, p, q, hp, hq, hweight⟩ := hbounds.edge e he
  have hle := hψ.dual x hx y hy
  have hp' : p = ψ (.source x) + -1 * s e.dst := hs _ _ _ hp
  have hq' : q = ψ (.target y) + 1 * s e.src := hs _ _ _ hq
  rw [hweight]
  linarith

theorem TightComponents.get_eq {a : Node} {l : ℕ × ℚ} (h : c.label a = some l) :
    c.get a = .ok l := by
  rw [TightComponents.get, h]

theorem offsetEdge_spec {read : List (String × String)} {l : String × String}
    (hc : Closed plan metric c) (hl : l.1 ∈ source.support ∧ l.2 ∈ target.support)
    (hx : c.label (.source l.1) ≠ none) (hy : c.label (.target l.2) ≠ none)
    (h : Bounds source target metric c read edges) :
    Decides (∃ ψ, Prices plan source target metric ψ)
      (Bounds source target metric c (read ++ [l])) (offsetEdge metric c edges l) := by
  obtain ⟨⟨a, p⟩, hp⟩ := Option.ne_none_iff_exists'.mp hx
  obtain ⟨⟨b, q⟩, hq⟩ := Option.ne_none_iff_exists'.mp hy
  -- one lane more is counted
  have hsnoc : ∀ edges', edges ⊆ edges' → Counted metric c edges' l →
      ∀ l' ∈ read ++ [l], Counted metric c edges' l' := by
    intro edges' hsub hcounted l' hl'
    rcases List.mem_append.mp hl' with hl' | hl'
    · exact (h.counted l' hl').mono hsub
    · exact List.mem_singleton.mp hl' ▸ hcounted
  have hcounted : ∀ edges', (if a = b then 0 ≤ metric.call l.1 l.2 - p - q
      else ⟨b, a, metric.call l.1 l.2 - p - q⟩ ∈ edges') → Counted metric c edges' l := by
    intro edges' hlane a' b' p' q' hp' hq'
    rw [hp] at hp'
    rw [hq] at hq'
    cases hp'
    cases hq'
    exact hlane
  rw [offsetEdge, TightComponents.get_eq hp, TightComponents.get_eq hq]
  show Decides _ _ (if a = b then _ else _)
  split
  · rename_i hab
    have hinside : (∃ ψ, Prices plan source target metric ψ) →
        0 ≤ metric.call l.1 l.2 - p - q := by
      rintro ⟨ψ, hψ⟩
      obtain ⟨s, hs⟩ := hc.agrees ψ hψ.meets
      have hle := hψ.dual l.1 hl.1 l.2 hl.2
      have hp' : p = ψ (.source l.1) + -1 * s a := hs _ _ _ hp
      have hq' : q = ψ (.target l.2) + 1 * s b := hs _ _ _ hq
      rw [← hab] at hq'
      linarith
    refine (Decides.of_require hinside).bind fun _ hbound => ?_
    exact ⟨h.edge, hsnoc edges (List.Subset.refl _) (hcounted _ (by rwa [if_pos hab]))⟩
  · rename_i hab
    show Bounds source target metric c (read ++ [l])
      (edges ++ [⟨b, a, metric.call l.1 l.2 - p - q⟩])
    refine ⟨fun e he => ?_, hsnoc _ (List.subset_append_left _ _) (hcounted _ ?_)⟩
    · rcases List.mem_append.mp he with he | he
      · exact h.edge e he
      · rw [List.mem_singleton.mp he]
        exact ⟨l.1, hl.1, l.2, hl.2, p, q, hp, hq, rfl⟩
    · rw [if_neg hab]
      exact List.mem_append_right _ (List.mem_singleton_self _)

/-- The values of the components with their offsets exceed no lane. -/
def Fits (source target : FiniteMeasure) (metric : GroundMetric) (c : TightComponents)
    (offsets : ℕ → ℚ) : Prop :=
  ∀ x ∈ source.support, ∀ y ∈ target.support, ∀ a b p q, c.label (.source x) = some (a, p) →
    c.label (.target y) = some (b, q) → (p + offsets a) + (q - offsets b) ≤ metric.call x y

theorem fits_of_counted {offsets : ℕ → ℚ}
    (h : ∀ l ∈ lanes R source target, Counted metric c edges l)
    (hsolves : ∀ e ∈ edges, offsets e.dst ≤ offsets e.src + e.weight) :
    Fits source target metric c offsets := by
  intro x hx y hy a b p q hp hq
  have hlane := h (x, y) (mem_lanes.mpr ⟨hx, hy⟩) a b p q hp hq
  split at hlane
  · rename_i hab
    rw [hab]
    linarith
  · have hle : offsets a ≤ offsets b + (metric.call x y - p - q) := hsolves _ hlane
    linarith

/-- Offsets that fit, or there are no prices. -/
theorem solveComponentOffsets_spec (hc : Closed plan metric c)
    (hx : ∀ x ∈ source.support, c.label (.source x) ≠ none)
    (hy : ∀ y ∈ target.support, c.label (.target y) ≠ none) :
    Decides (∃ ψ, Prices plan source target metric ψ) (Fits source target metric c)
      (solveComponentOffsets R source target metric c) := by
  unfold solveComponentOffsets
  refine (Decides.foldlM (I := Bounds source target metric c) ⟨by simp, by simp⟩
    fun read l edges hl h => ?_).bind fun edges hbounds => ?_
  · have hmem := mem_lanes.mp hl
    exact offsetEdge_spec hc hmem (hx _ hmem.1) (hy _ hmem.2) h
  -- so many passes settle every edge if there are prices
  have hsettled : (∃ ψ, Prices plan source target metric ψ) →
      ∀ e ∈ edges, relaxAll edges (c.count - 1) (fun _ => 0) e.dst ≤
        relaxAll edges (c.count - 1) (fun _ => 0) e.src + e.weight := by
    rintro ⟨ψ, hψ⟩
    obtain ⟨s, hs⟩ := solves_of_prices hc hbounds hψ
    have hrange : ∀ e ∈ edges, e.src ∈ range c.count ∧ e.dst ∈ range c.count := fun e he => by
      obtain ⟨x, -, y, -, p, q, hp, hq, -⟩ := hbounds.edge e he
      exact ⟨mem_range.mpr (hc.lt _ _ _ hq), mem_range.mpr (hc.lt _ _ _ hp)⟩
    have hpasses := settled_passes (d := fun _ => ((0 : ℚ) : WithTop ℚ)) hs.noNegativeCycle hrange
    rw [card_range, ← relaxAll_eq edges (c.count - 1) fun _ => 0] at hpasses
    exact solves_of_settled hpasses
  refine (Decides.of_forM hsettled).bind fun _ hsolves => ?_
  exact fits_of_counted hbounds.counted hsolves

/-! ## The potential -/

theorem lookup_shiftValues (p : Dict String ℚ) (shift : ℚ) (x : String) :
    (shiftValues p shift).lookup x = (p.lookup x).map (· + shift) :=
  @List.dlookup_map₂ String _ (fun _ => ℚ) (fun _ => ℚ) p.entries (fun _ => (· + shift)) x

theorem mem_keys_shiftValues {p : Dict String ℚ} {shift : ℚ} {x : String} :
    x ∈ (shiftValues p shift).keys ↔ x ∈ p.keys := by
  simp only [mem_keys_iff, lookup_shiftValues, Option.map_eq_some_iff]
  exact ⟨fun ⟨_, a, ha, _⟩ => ⟨a, ha⟩, fun ⟨a, ha⟩ => ⟨_, a, ha, rfl⟩⟩

theorem price_shiftValues {p : Dict String ℚ} {x : String} (hx : x ∈ p.keys) (shift : ℚ) :
    price (shiftValues p shift) x = price p x + shift := by
  obtain ⟨a, ha⟩ := mem_keys_iff.mp hx
  simp [price, lookup_shiftValues, ha]

/-- A potential of the right prices. -/
structure Recovered (plan : TransportPlan) (source target : FiniteMeasure) (metric : GroundMetric)
    (p : DualPotential) : Prop where
  covers : Covers source target p
  complementary : (problem source target metric).Complementary plan.amount (price p.u) (price p.v)

/-- What the gauge takes from the prices of one side it adds to those of the other. -/
theorem Recovered.anchored {p : DualPotential} (h : Recovered plan source target metric p) :
    ∃ p', anchored p = .ok p' ∧ Recovered plan source target metric p' := by
  unfold Kantorovich.anchored
  cases hmin : p.u.keys.min? with
  | none => exact ⟨p, rfl, h⟩
  | some anchor =>
    have hanchor : anchor ∈ p.u.keys := List.min?_mem hmin
    have hu : ∀ x ∈ (problem source target metric).sources,
        price (shiftValues p.u (-price p.u anchor)) x = price p.u x + -price p.u anchor :=
      fun x hx => price_shiftValues ((h.covers.left x).mpr (List.mem_toFinset.mp hx)) _
    have hv : ∀ y ∈ (problem source target metric).targets,
        price (shiftValues p.v (price p.u anchor)) y = price p.v y + price p.u anchor :=
      fun y hy => price_shiftValues ((h.covers.right y).mpr (List.mem_toFinset.mp hy)) _
    refine ⟨⟨shiftValues p.u (-price p.u anchor), shiftValues p.v (price p.u anchor)⟩, ?_,
      ⟨fun x => mem_keys_shiftValues.trans (h.covers.left x),
        fun y => mem_keys_shiftValues.trans (h.covers.right y)⟩,
      fun x hx y hy => ?_, fun x hx y hy hpos => ?_⟩
    · dsimp only
      rw [index_eq_price hanchor]
      rfl
    · rw [hu x hx, hv y hy]
      linarith [h.complementary.dual x hx y hy]
    · rw [hu x hx, hv y hy, ← h.complementary.tight x hx y hy hpos]
      ring

/-- The values of one side, from the labels of its points. -/
theorem exists_values {side : String → Node} {support : List String}
    (h : ∀ x ∈ support, c.label (side x) ≠ none) (f : ℕ → ℚ → ℚ) :
    ∃ d, (comprehension (R.setOrder support) fun x => do
        let (a, base) ← c.get (side x)
        return f a base) = .ok d ∧
      (∀ x, x ∈ d.keys ↔ x ∈ support) ∧
      ∀ x ∈ support, ∀ a base, c.label (side x) = some (a, base) → price d x = f a base := by
  obtain ⟨l, hl⟩ : ∃ l : String → ℕ × ℚ, ∀ x ∈ support, c.label (side x) = some (l x) :=
    ⟨fun x => (c.label (side x)).getD (0, 0), fun x hx => by
      obtain ⟨l, hl⟩ := Option.ne_none_iff_exists'.mp (h x hx)
      simp [hl]⟩
  have hvalue : ∀ x ∈ R.setOrder support, (do
      let (a, base) ← c.get (side x)
      return f a base) = (.ok (f (l x).1 (l x).2) : Checked ℚ) := fun x hx => by
    rw [TightComponents.get_eq (hl x ((R.setOrder_perm _).mem_iff.mp hx))]
    rfl
  obtain ⟨d, hd, hlookup⟩ := comprehension_eq_ok hvalue
  simp only [(R.setOrder_perm _).mem_iff] at hlookup
  refine ⟨d, hd, fun x => ?_, fun x hx a base ha => ?_⟩
  · rw [mem_keys_iff, hlookup]
    split <;> simp_all
  · rw [price, hlookup, if_pos hx, Option.getD_some, Option.some.inj ((hl x hx).symm.trans ha)]

/-- Prices that are met exactly on every lane in use, or there are none. -/
theorem constructDual_spec (h : RightMarginals source target plan) :
    Decides (∃ u v, (problem source target metric).Complementary plan.amount u v)
      (Recovered plan source target metric) (constructDual R plan source target metric) := by
  have hprices := exists_prices_iff metric h
  unfold constructDual
  rw [verifyMarginals_eq_ok.mpr h]
  refine (Decides.mono (deriveTightComponents_spec fun x y hpos => h.known_of_pos hpos)
    (fun hcomp => (hprices.mpr hcomp).imp fun _ hψ => hψ.meets) fun _ h => h).bind
    fun c ⟨hclosed, hx, hy⟩ => ?_
  refine (Decides.mono (solveComponentOffsets_spec (R := R) hclosed hx hy) hprices.mpr
    fun _ h => h).bind fun offsets hfits => ?_
  obtain ⟨u, hu, hukeys, huprice⟩ := exists_values (R := R) hx fun a base => base + offsets a
  obtain ⟨v, hv, hvkeys, hvprice⟩ := exists_values (R := R) hy fun b base => base - offsets b
  have hrecovered : Recovered plan source target metric ⟨u, v⟩ := by
    refine ⟨⟨hukeys, hvkeys⟩, fun x hxs y hys => ?_, fun x hxs y hys hpos => ?_⟩
    · obtain ⟨⟨a, p⟩, hp⟩ := Option.ne_none_iff_exists'.mp (hx x (List.mem_toFinset.mp hxs))
      obtain ⟨⟨b, q⟩, hq⟩ := Option.ne_none_iff_exists'.mp (hy y (List.mem_toFinset.mp hys))
      rw [huprice x (List.mem_toFinset.mp hxs) a p hp, hvprice y (List.mem_toFinset.mp hys) b q hq]
      exact hfits x (List.mem_toFinset.mp hxs) y (List.mem_toFinset.mp hys) a b p q hp hq
    · obtain ⟨k, p, q, hp, hq, hsum⟩ := hclosed.joined _ _
        (mem_neighbors_source.mpr ⟨y, rfl, hpos⟩) (hx x (List.mem_toFinset.mp hxs))
      rw [huprice x (List.mem_toFinset.mp hxs) k p hp, hvprice y (List.mem_toFinset.mp hys) k q hq]
      calc p + offsets k + (q - offsets k) = p + q := by ring
        _ = metric.call x y := hsum
  obtain ⟨p, hp, hrecovered'⟩ := hrecovered.anchored
  obtain ⟨m, hm⟩ := (verifyDualFeasibility_ok_iff (R := R)).mpr
    ⟨hrecovered'.covers, hrecovered'.complementary.dual⟩
  rw [hu]
  refine Decides.bind (P := fun u' => u' = u) rfl ?_
  rintro _ rfl
  rw [hv]
  refine Decides.bind (P := fun v' => v' = v) rfl ?_
  rintro _ rfl
  rw [hp]
  refine Decides.bind (P := fun p' => p' = p) rfl ?_
  rintro _ rfl
  rw [hm]
  exact hrecovered'

/-- A plan of the right marginals has a dual certificate just when none undercuts it : the
potential that `constructDual` returns, with which `verify` accepts the plan. And `verify` accepts
nothing else. -/
theorem dual_certificates_exact (R : Interpreter) (source target : FiniteMeasure)
    (metric : GroundMetric) :
    (∀ plan, RightMarginals source target plan →
      ((∃ p, constructDual R plan source target metric = .ok p) ↔
        CheapestPlan source target metric plan) ∧
      (¬CheapestPlan source target metric plan →
        ∃ r, constructDual R plan source target metric = .error (.refusal r)) ∧
      ∀ p, constructDual R plan source target metric = .ok p →
        ∃ w, verify R plan p source target metric = .ok w) ∧
    ∀ plan p w, verify R plan p source target metric = .ok w →
      RightMarginals source target plan ∧ CheapestPlan source target metric plan := by
  refine ⟨fun plan h => ?_, fun plan p w hw => cheapest_of_verify hw⟩
  have hspec : Decides _ _ (constructDual R plan source target metric) := constructDual_spec h
  rw [← h.isPlan.optimal_iff, ← cheapestPlan_iff h] at hspec
  cases hdual : constructDual R plan source target metric with
  | ok p =>
    rw [hdual] at hspec
    obtain ⟨w, hw⟩ := verify_of_complementary (R := R) h hspec.covers hspec.complementary
    have hcheapest := (cheapest_of_verify hw).2
    refine ⟨iff_of_true ⟨p, rfl⟩ hcheapest, fun hnot => absurd hcheapest hnot, ?_⟩
    rintro _ ⟨⟩
    exact ⟨w, hw⟩
  | error e =>
    rw [hdual] at hspec
    obtain ⟨⟨r, rfl⟩, hnot⟩ := hspec
    exact ⟨iff_of_false nofun hnot, fun _ => ⟨r, rfl⟩, nofun⟩

/-! ## Half of a unit moved -/

/-- Sets in the order of their items, and a string between quotes. -/
def plainInterpreter : Interpreter where
  setOrder := id
  setOrder_perm := List.Perm.refl
  repr := fun s => "'" ++ s ++ "'"

def pointMass : FiniteMeasure := ⟨(∅ : Dict String ℚ).insert "a" 1⟩

def halves : FiniteMeasure := ⟨((∅ : Dict String ℚ).insert "b" (1 / 2)).insert "a" (1 / 2)⟩

def unitApart : GroundMetric :=
  ⟨((∅ : Dict (String × String) ℚ).insert ("a", "b") 1).insert ("b", "a") 1⟩

def halfMoved : TransportPlan :=
  ⟨((∅ : Dict (String × String) ℚ).insert ("a", "b") (1 / 2)).insert ("a", "a") (1 / 2)⟩

theorem halfMoved_cheapest : CheapestPlan pointMass halves unitApart halfMoved := by
  have hright : RightMarginals pointMass halves halfMoved :=
    (verifyMarginals_eq_ok (R := plainInterpreter)).mp (by decide +kernel)
  have hreturns : (constructDual plainInterpreter halfMoved pointMass halves
      unitApart).toOption.isSome := by decide +kernel
  have hiff := ((dual_certificates_exact plainInterpreter pointMass halves unitApart).1 halfMoved
    hright).1
  refine hiff.mp ?_
  cases hdual : constructDual plainInterpreter halfMoved pointMass halves unitApart with
  | ok p => exact ⟨p, rfl⟩
  | error e => simp [hdual, Except.toOption] at hreturns

end GymAct.Kantorovich
