import GymAct.DistinctKeys
import GymAct.World

/-!
# Contracts and the methods they are of

A class takes the contract of the last base that has one, and the method of the first class of its
linearization. `contracts_hold_iff` : every contract of a program is that of the method it runs
exactly when no class redefines an affordance without a decorator, and the last base that affords a
name looks it up to a function of the same marker as the class does (`Faithful`).
-/

namespace GymAct

namespace World

/-! ## What is claimed -/

/-- The marker of the function a name is looked up to. -/
def markerOf (H : Classes) (i : ℕ) (name : String) : Option Marker :=
  (resolve H i name).bind Member.marker

/-- A contract of the kind and the capability of a marker. -/
structure AffordanceContract.Of (contract : AffordanceContract) (marker : Marker) : Prop where
  kind : contract.kind = marker.kind
  capabilityRef : contract.capabilityRef = marker.capabilityRef

/-- The contract that a class has for a name. -/
def contractAt (H : Classes) (i : ℕ) (name : String) : Option AffordanceContract :=
  (H[i]?).bind fun c => c.affordances name

/-- A contract is that of the function its name is looked up to. -/
def Honest (H : Classes) : Prop :=
  ∀ i name contract, contractAt H i name = some contract →
    ∃ marker, markerOf H i name = some marker ∧ contract.Of marker

/-- `invoke` of a method that is marked as an effect returns only through the port. -/
def EffectsPorted (H : Classes) : Prop :=
  ∀ (reprOf : String → String) (rt : WorldRuntime) (obj : WorldObject)
    (subjectRef affordance : String) (arguments : Payload) (marker : Marker)
    (calls calls' : List (String × EffectIntent)) (value : Invoked),
    rt.objects subjectRef = some obj → markerOf H obj.cls affordance = some marker →
    marker.kind = .effect →
    invoke reprOf H rt subjectRef affordance arguments calls = .ok (value, calls') →
    ∃ intent, calls' = calls ++ [(subjectRef, intent)]

structure ContractsHold (H : Classes) : Prop where
  honest : Honest H
  ported : EffectsPorted H

/-- A class or one of its ancestors marks a function of that name as an affordance. -/
inductive Affords (H : Classes) (name : String) : ℕ → Prop
  | own {i : ℕ} {c : Class} {m : Member} {marker : Marker} (hc : H[i]? = some c)
      (hworld : c.world = true) (hm : c.members.lookup name = some m)
      (hmarker : m.marker = some marker) : Affords H name i
  | inherited {i b : ℕ} {c : Class} (hc : H[i]? = some c) (hb : b ∈ c.bases)
      (h : Affords H name b) : Affords H name i

/-- `b` is the last of the bases that affords the name. -/
def LastAffording (H : Classes) (name : String) (bases : List ℕ) (b : ℕ) : Prop :=
  ∃ pre post, bases = pre ++ b :: post ∧ Affords H name b ∧ ∀ b' ∈ post, ¬ Affords H name b'

/-- No class redefines an affordance of a base without a decorator. -/
def Decorated (H : Classes) : Prop :=
  ∀ (i : ℕ) (c : Class) (name : String) (m : Member) (b : ℕ), H[i]? = some c →
    c.members.lookup name = some m → b ∈ c.bases → Affords H name b → m.marker ≠ none

structure Faithful (H : Classes) : Prop where
  decorated : Decorated H
  /-- An affordance that is not redefined has the marker it has in the last base that affords it. -/
  agrees : ∀ (i : ℕ) (c : Class) (name : String) (b : ℕ), H[i]? = some c →
    c.members.lookup name = none → LastAffording H name c.bases b →
      markerOf H i name = markerOf H b name

/-! ## How a class was created -/

/-- The class `i` was created from the classes `older`. -/
structure Created (H : Classes) (i : ℕ) (c : Class) (older : List Class) : Prop where
  bases : List.Forall₂ (fun b base => b < i ∧ H[b]? = some base) c.bases older
  mro : ∃ rest, Linearization.merge (older.map Class.mro ++ [c.bases]) = some rest ∧
    c.mro = i :: rest
  world : c.world = (c.metaclass || older.any Class.world)
  affordances : contractsOf c.toClassDef older c.world = .ok c.affordances

/-- Every class was created from earlier ones. -/
def AllCreated (H : Classes) : Prop := ∀ i c, H[i]? = some c → ∃ older, Created H i c older

variable {H H' : Classes} {i b : ℕ} {c base : Class} {older : List Class} {name : String}

theorem getElem?_append_of_eq_some (h : H[b]? = some base) (more : Classes) :
    (H ++ more)[b]? = some base := by
  obtain ⟨hlt, -⟩ := List.getElem?_eq_some_iff.mp h
  rw [List.getElem?_append_left hlt, h]

theorem Created.append (h : Created H i c older) (more : Classes) :
    Created (H ++ more) i c older where
  bases := h.bases.imp fun _ _ hb => ⟨hb.1, getElem?_append_of_eq_some hb.2 more⟩
  mro := h.mro
  world := h.world
  affordances := h.affordances

theorem baseOf_eq_ok (h : baseOf H b = .ok base) : H[b]? = some base := by
  unfold baseOf at h
  split at h
  · cases h
  · next hb => rw [hb, Except.ok.inj h]

theorem resolutionOrder_eq_ok {d : ClassDef} {mro : List ℕ}
    (h : resolutionOrder i d older = .ok mro) :
    ∃ rest, Linearization.merge (older.map Class.mro ++ [d.bases]) = some rest ∧
      mro = i :: rest := by
  unfold resolutionOrder at h
  split at h
  · cases h
  · split at h
    · cases h
    · next rest hrest => exact ⟨rest, hrest, (Except.ok.inj h).symm⟩

/-- A class statement creates a class after the others. -/
theorem define_eq_ok {d : ClassDef} (h : define H d = .ok H') :
    ∃ c older, H' = H ++ [c] ∧ Created H' H.length c older := by
  obtain ⟨older, holder, h⟩ := Fallible.bind_eq_ok.mp h
  obtain ⟨mro, hmro, h⟩ := Fallible.bind_eq_ok.mp h
  obtain ⟨affordances, haffordances, h⟩ := Fallible.bind_eq_ok.mp h
  obtain rfl := Except.ok.inj h
  refine ⟨⟨d, mro, _, affordances⟩, older, rfl, ?_, resolutionOrder_eq_ok hmro, rfl, haffordances⟩
  refine (Fallible.forall₂_of_mapM holder).imp fun b base hb => ?_
  have hget := baseOf_eq_ok hb
  obtain ⟨hlt, -⟩ := List.getElem?_eq_some_iff.mp hget
  exact ⟨hlt, getElem?_append_of_eq_some hget _⟩

/-- Every class of a program that runs was created from earlier ones. -/
theorem build_created {ds : List ClassDef} (h : build ds = .ok H) : AllCreated H := by
  refine Fallible.foldlM_invariant (I := AllCreated) (fun d H H' hH hdefine => ?_) ?_ h
  · obtain ⟨c, older, rfl, hc⟩ := define_eq_ok hdefine
    intro i c' hget
    rw [List.getElem?_append] at hget
    split at hget
    · obtain ⟨older', holder'⟩ := hH i c' hget
      exact ⟨older', holder'.append _⟩
    · next hi =>
      obtain ⟨hlt, rfl⟩ := List.getElem?_eq_some_iff.mp hget
      rw [List.length_singleton] at hlt
      obtain rfl : i = H.length := by omega
      exact ⟨older, by simpa using hc⟩
  · intro i c hget
    cases hget

/-! ## The contracts of a class -/

section Declare

variable {owner : String} {t t' : Dict AffordanceContract} {item : String × Member}
  {members : List (String × Member)} {m : Member} {marker : Marker}

theorem declare_of_unmarked (hmarker : item.2.marker = none) (h : declare owner t item = .ok t') :
    t' = t := by
  rw [declare, hmarker] at h
  exact (Except.ok.inj h).symm

theorem declare_of_marked (hmarker : item.2.marker = some marker)
    (h : declare owner t item = .ok t') :
    ∃ contract : AffordanceContract,
      contract.Of marker ∧ t' = Function.update t item.1 (some contract) := by
  rw [declare, hmarker] at h
  dsimp only at h
  split at h
  · cases h
  · obtain ⟨model, -, h⟩ := Fallible.bind_eq_ok.mp h
    exact ⟨_, ⟨rfl, rfl⟩, (Except.ok.inj h).symm⟩

theorem declare_of_ne (hname : name ≠ item.1) (h : declare owner t item = .ok t') :
    t' name = t name := by
  rcases hmarker : item.2.marker with - | marker
  · rw [declare_of_unmarked hmarker h]
  · obtain ⟨contract, -, rfl⟩ := declare_of_marked hmarker h
    exact Function.update_of_ne hname _ _

/-- A name of the namespace that has no marker keeps the contract of the bases. -/
theorem foldlM_declare_of_unmarked : ∀ {members : List (String × Member)}
    {t t' : Dict AffordanceContract},
    (∀ item ∈ members, item.1 = name → item.2.marker = none) →
      members.foldlM (declare owner) t = .ok t' → t' name = t name
  | [], _, _, _, h => by rw [Except.ok.inj h]
  | item :: members, t, t', hunmarked, h => by
    obtain ⟨t'', hitem, h⟩ := Fallible.bind_eq_ok.mp h
    have hrest : t' name = t'' name :=
      foldlM_declare_of_unmarked (fun item' hmem => hunmarked item' (List.mem_cons_of_mem _ hmem)) h
    rw [hrest]
    by_cases hname : item.1 = name
    · rw [declare_of_unmarked (hunmarked item List.mem_cons_self hname) hitem]
    · exact declare_of_ne (Ne.symm hname) hitem

/-- A name of the namespace that has a marker gets a contract of it. -/
theorem foldlM_declare_of_marked : ∀ {members : List (String × Member)}
    {t t' : Dict AffordanceContract}, (members.map Prod.fst).Nodup → (name, m) ∈ members →
      m.marker = some marker → members.foldlM (declare owner) t = .ok t' →
      ∃ contract, t' name = some contract ∧ contract.Of marker
  | [], _, _, _, hm, _, _ => absurd hm List.not_mem_nil
  | item :: members, t, t', hdistinct, hm, hmarker, h => by
    obtain ⟨t'', hitem, h⟩ := Fallible.bind_eq_ok.mp h
    obtain ⟨hfresh, hdistinct⟩ := List.nodup_cons.mp hdistinct
    rcases List.mem_cons.mp hm with rfl | hm
    · obtain ⟨contract, hof, rfl⟩ := declare_of_marked hmarker hitem
      refine ⟨contract, ?_, hof⟩
      -- the rest of the namespace does not have the name again
      rw [foldlM_declare_of_unmarked (fun item' hmem hname => ?_) h]
      · exact Function.update_self ..
      · exact absurd (List.mem_map.mpr ⟨item', hmem, hname⟩) hfresh
    · exact foldlM_declare_of_marked hdistinct hm hmarker h

end Declare

/-- The last base that has a contract gives it. -/
theorem inherited_eq (older : List Class) (name : String) :
    inherited older name = older.reverse.findSome? fun base => base.affordances name := by
  induction older using List.reverseRecOn with
  | nil => rfl
  | append_singleton older base ih =>
    rw [List.reverse_append, List.reverse_singleton, List.singleton_append, List.findSome?_cons,
      ← ih, inherited, List.foldl_append]
    change (base.affordances name).or (inherited older name) = _
    cases base.affordances name <;> rfl

theorem contractAt_eq (h : H[i]? = some c) : contractAt H i name = c.affordances name := by
  rw [contractAt, h, Option.bind_some]

section Created

variable {m : Member} {marker : Marker}

theorem Created.inherited (h : Created H i c older) (name : String) :
    inherited older name = c.bases.reverse.findSome? fun b => contractAt H b name := by
  have hall : List.Forall₂ Eq (c.bases.map fun b => contractAt H b name)
      (older.map fun base => base.affordances name) := by
    rw [List.forall₂_map_left_iff, List.forall₂_map_right_iff]
    exact h.bases.imp fun b base hb => contractAt_eq hb.2
  have hmap : c.bases.map _ = older.map _ := List.forall₂_eq_eq_eq ▸ hall
  calc World.inherited older name
      = (older.map fun base => base.affordances name).reverse.findSome? id := by
        rw [inherited_eq, ← List.map_reverse, List.findSome?_map, Function.id_comp]
    _ = c.bases.reverse.findSome? fun b => contractAt H b name := by
        rw [← hmap, ← List.map_reverse, List.findSome?_map, Function.id_comp]

/-- A decorated function has its own contract. -/
theorem Created.affordances_of_marked (h : Created H i c older) (hworld : c.world = true)
    (hm : c.members.lookup name = some m) (hmarker : m.marker = some marker) :
    ∃ contract, c.affordances name = some contract ∧ contract.Of marker := by
  have haffordances := h.affordances
  rw [contractsOf, if_pos hworld] at haffordances
  exact foldlM_declare_of_marked c.distinct (DistinctKeys.mem_of_lookup hm) hmarker haffordances

/-- Another name has the contract of the last base that has one. -/
theorem Created.affordances_of_unmarked (h : Created H i c older) (hworld : c.world = true)
    (hm : ∀ m, c.members.lookup name = some m → m.marker = none) :
    c.affordances name = c.bases.reverse.findSome? fun b => contractAt H b name := by
  have haffordances := h.affordances
  rw [contractsOf, if_pos hworld] at haffordances
  rw [← h.inherited name]
  refine foldlM_declare_of_unmarked (fun item hmem hname => hm item.2 ?_) haffordances
  exact (DistinctKeys.lookup_eq_some_iff c.distinct).mpr (hname ▸ hmem)

/-- A class of another metaclass has no contracts. -/
theorem Created.world_of_affordances (h : Created H i c older)
    (hc : c.affordances name ≠ none) : c.world = true := by
  by_contra hworld
  have haffordances := h.affordances
  rw [contractsOf, if_neg hworld] at haffordances
  exact hc (by rw [← Except.ok.inj haffordances])

theorem Created.base_of_mem (h : Created H i c older) (hb : b ∈ c.bases) :
    b < i ∧ ∃ base ∈ older, H[b]? = some base := by
  obtain ⟨k, hk, rfl⟩ := List.getElem_of_mem hb
  have hk' : k < older.length := h.bases.length_eq ▸ hk
  obtain ⟨hlt, hget⟩ := h.bases.get hk hk'
  exact ⟨hlt, older[k], List.getElem_mem hk', hget⟩

/-- A class of a base of the metaclass is of the metaclass. -/
theorem Created.world_of_base (h : Created H i c older) (hb : b ∈ c.bases)
    (hbase : H[b]? = some base) (hworld : base.world = true) : c.world = true := by
  obtain ⟨-, base', hmem, hget⟩ := h.base_of_mem hb
  obtain rfl : base = base' := Option.some.inj (hbase.symm.trans hget)
  rw [h.world, Bool.or_eq_true, List.any_eq_true]
  exact Or.inr ⟨base, hmem, hworld⟩

end Created

/-! ## Which classes have a contract -/

/-- The marker of a function of the namespace, as the metaclass finds it. -/
def ownMarker (c : Class) (name : String) : Option Marker :=
  (c.members.lookup name).bind Member.marker

theorem ownMarker_eq_none : ownMarker c name = none ↔
    ∀ m, c.members.lookup name = some m → m.marker = none :=
  Option.bind_eq_none_iff

/-- An affordance is a name that has a contract. -/
theorem Affords.contractAt (hH : AllCreated H) (h : Affords H name i) :
    contractAt H i name ≠ none := by
  induction h with
  | @own i c m marker hc hworld hm hmarker =>
    obtain ⟨older, hcreated⟩ := hH i c hc
    obtain ⟨contract, hcontract, -⟩ := hcreated.affordances_of_marked hworld hm hmarker
    rw [contractAt_eq hc, hcontract]
    exact Option.some_ne_none contract
  | @inherited i b c hc hb _ ih =>
    obtain ⟨older, hcreated⟩ := hH i c hc
    obtain ⟨-, base, -, hbase⟩ := hcreated.base_of_mem hb
    obtain ⟨older', hcreated'⟩ := hH b base hbase
    have hcontract : base.affordances name ≠ none := by rwa [← contractAt_eq hbase]
    have hworld := hcreated.world_of_base hb hbase (hcreated'.world_of_affordances hcontract)
    rw [contractAt_eq hc]
    rcases hown : ownMarker c name with - | marker
    · rw [hcreated.affordances_of_unmarked hworld (ownMarker_eq_none.mp hown)]
      intro hnone
      exact ih (List.findSome?_eq_none_iff.mp hnone b (List.mem_reverse.mpr hb))
    · obtain ⟨m, hm, hmarker⟩ := Option.bind_eq_some_iff.mp hown
      obtain ⟨contract, hcontract, -⟩ := hcreated.affordances_of_marked hworld hm hmarker
      rw [hcontract]
      exact Option.some_ne_none contract

theorem affords_of_contractAt (hH : AllCreated H) :
    ∀ {i : ℕ}, contractAt H i name ≠ none → Affords H name i := by
  intro i
  induction i using Nat.strong_induction_on with
  | _ i ih =>
    intro hi
    obtain ⟨contract, hcontract⟩ := Option.ne_none_iff_exists'.mp hi
    obtain ⟨c, hc, hcontract⟩ := Option.bind_eq_some_iff.mp hcontract
    obtain ⟨older, hcreated⟩ := hH i c hc
    have hworld := hcreated.world_of_affordances (hcontract ▸ Option.some_ne_none contract)
    rcases hown : ownMarker c name with - | marker
    · rw [hcreated.affordances_of_unmarked hworld (ownMarker_eq_none.mp hown)] at hcontract
      obtain ⟨b, hb, hbcontract⟩ := List.exists_of_findSome?_eq_some hcontract
      have hb : b ∈ c.bases := List.mem_reverse.mp hb
      exact .inherited hc hb
        (ih b (hcreated.base_of_mem hb).1 (hbcontract ▸ Option.some_ne_none contract))
    · obtain ⟨m, hm, hmarker⟩ := Option.bind_eq_some_iff.mp hown
      exact .own hc hworld hm hmarker

theorem affords_iff (hH : AllCreated H) : Affords H name i ↔ contractAt H i name ≠ none :=
  ⟨fun h => h.contractAt hH, affords_of_contractAt hH⟩

/-- The contract of an affordance that is not redefined with a decorator is that of the last base
that affords it. -/
theorem lastAffording_of_contractAt (hH : AllCreated H) (hc : H[i]? = some c)
    (hown : ownMarker c name = none) {contract : AffordanceContract}
    (hcontract : contractAt H i name = some contract) :
    ∃ b < i, LastAffording H name c.bases b ∧ contractAt H b name = some contract := by
  obtain ⟨older, hcreated⟩ := hH i c hc
  rw [contractAt_eq hc] at hcontract
  have hworld := hcreated.world_of_affordances (hcontract ▸ Option.some_ne_none contract)
  rw [hcreated.affordances_of_unmarked hworld (ownMarker_eq_none.mp hown)] at hcontract
  obtain ⟨post, b, pre, hbases, hb, hpost⟩ := List.findSome?_eq_some_iff.mp hcontract
  have hbases : c.bases = pre.reverse ++ b :: post.reverse := by
    rw [← List.reverse_reverse c.bases, hbases]
    simp
  have hmem : b ∈ c.bases := by simp [hbases]
  refine ⟨b, (hcreated.base_of_mem hmem).1, ⟨pre.reverse, post.reverse, hbases, ?_, ?_⟩, hb⟩
  · exact affords_of_contractAt hH (hb ▸ Option.some_ne_none contract)
  · intro b' hb' hafford
    exact hafford.contractAt hH (hpost b' (List.mem_reverse.mp hb'))

/-! ## The function of a name -/

theorem resolve_eq (hH : AllCreated H) (hc : H[i]? = some c) (name : String) :
    ∃ rest, c.mro = i :: rest ∧ resolve H i name = (c.members.lookup name).or
      (rest.findSome? fun j => (H[j]?).bind fun d => d.members.lookup name) := by
  obtain ⟨older, hcreated⟩ := hH i c hc
  obtain ⟨rest, -, hmro⟩ := hcreated.mro
  refine ⟨rest, hmro, ?_⟩
  rw [resolve, hc, Option.bind_some, hmro, List.findSome?_cons, hc, Option.bind_some]
  cases c.members.lookup name <;> rfl

/-- A class looks a name up in its own namespace first. -/
theorem resolve_of_own (hH : AllCreated H) (hc : H[i]? = some c) {m : Member}
    (hm : c.members.lookup name = some m) : resolve H i name = some m := by
  obtain ⟨rest, -, hresolve⟩ := resolve_eq hH hc name
  rw [hresolve, hm, Option.some_or]

theorem markerOf_of_own (hH : AllCreated H) (hc : H[i]? = some c) {m : Member}
    (hm : c.members.lookup name = some m) : markerOf H i name = m.marker := by
  rw [markerOf, resolve_of_own hH hc hm, Option.bind_some]

theorem AffordanceContract.Of.unique {contract : AffordanceContract} {marker marker' : Marker}
    (h : contract.Of marker) (h' : contract.Of marker') : marker = marker' :=
  Marker.eq_iff.mpr ⟨h.kind.symm.trans h'.kind, h.capabilityRef.symm.trans h'.capabilityRef⟩

/-! ## Contracts and markers -/

/-- By induction on when the class was created : an own contract is that of the own function, and
another one goes back to an earlier class. -/
theorem Faithful.honest (hH : AllCreated H) (h : Faithful H) : Honest H := by
  intro i
  induction i using Nat.strong_induction_on with
  | _ i ih =>
    intro name contract hcontract
    obtain ⟨c, hc, haffordances⟩ := Option.bind_eq_some_iff.mp hcontract
    obtain ⟨older, hcreated⟩ := hH i c hc
    rcases hown : ownMarker c name with - | marker
    · obtain ⟨b, hlt, hlast, hbcontract⟩ := lastAffording_of_contractAt hH hc hown hcontract
      obtain ⟨marker, hmarker, hof⟩ := ih b hlt name contract hbcontract
      have hnone : c.members.lookup name = none := by
        by_contra hsome
        obtain ⟨m, hm⟩ := Option.ne_none_iff_exists'.mp hsome
        obtain ⟨pre, post, hbases, hafford, -⟩ := hlast
        exact h.decorated i c name m b hc hm (by simp [hbases]) hafford
          (ownMarker_eq_none.mp hown m hm)
      exact ⟨marker, (h.agrees i c name b hc hnone hlast).trans hmarker, hof⟩
    · obtain ⟨m, hm, hmarker⟩ := Option.bind_eq_some_iff.mp hown
      have hworld := hcreated.world_of_affordances (haffordances ▸ Option.some_ne_none contract)
      obtain ⟨contract', hcontract', hof⟩ := hcreated.affordances_of_marked hworld hm hmarker
      obtain rfl : contract = contract' := Option.some.inj (haffordances.symm.trans hcontract')
      exact ⟨marker, (markerOf_of_own hH hc hm).trans hmarker, hof⟩

theorem contractAt_of_lastAffording (hH : AllCreated H) (hc : H[i]? = some c)
    (hown : ownMarker c name = none) (hlast : LastAffording H name c.bases b) :
    contractAt H i name ≠ none ∧ contractAt H i name = contractAt H b name := by
  obtain ⟨pre, post, hbases, hafford, hpost⟩ := hlast
  have hne : contractAt H i name ≠ none :=
    (Affords.inherited hc (by simp [hbases]) hafford).contractAt hH
  refine ⟨hne, ?_⟩
  obtain ⟨contract, hcontract⟩ := Option.ne_none_iff_exists'.mp (hafford.contractAt hH)
  obtain ⟨older, hcreated⟩ := hH i c hc
  have hworld := hcreated.world_of_affordances (contractAt_eq hc ▸ hne)
  rw [contractAt_eq hc, hcreated.affordances_of_unmarked hworld (ownMarker_eq_none.mp hown),
    hcontract]
  refine List.findSome?_eq_some_iff.mpr ⟨post.reverse, b, pre.reverse, by simp [hbases], hcontract,
    fun b' hb' => ?_⟩
  by_contra hsome
  exact hpost b' (List.mem_reverse.mp hb') (affords_of_contractAt hH hsome)

theorem Honest.faithful (hH : AllCreated H) (h : Honest H) : Faithful H where
  decorated := by
    intro i c name m b hc hm hb hafford hmarker
    have hi : contractAt H i name ≠ none := (Affords.inherited hc hb hafford).contractAt hH
    obtain ⟨contract, hcontract⟩ := Option.ne_none_iff_exists'.mp hi
    obtain ⟨marker, hmarkerOf, -⟩ := h i name contract hcontract
    rw [markerOf_of_own hH hc hm, hmarker] at hmarkerOf
    cases hmarkerOf
  agrees := by
    intro i c name b hc hnone hlast
    have hown : ownMarker c name = none := by rw [ownMarker, hnone, Option.bind_none]
    obtain ⟨hne, heq⟩ := contractAt_of_lastAffording hH hc hown hlast
    obtain ⟨contract, hcontract⟩ := Option.ne_none_iff_exists'.mp hne
    obtain ⟨marker, hmarker, hof⟩ := h i name contract hcontract
    obtain ⟨marker', hmarker', hof'⟩ := h b name contract (heq ▸ hcontract)
    rw [hmarker, hmarker', hof.unique hof']

/-! ## Where a base has all of a name -/

/-- A class that does not define a name looks it up as a base does that has all classes of its
linearization that define it. -/
theorem resolve_of_base (hH : AllCreated H) (hc : H[i]? = some c)
    (hnone : c.members.lookup name = none) (hb : b ∈ c.bases) (hbase : H[b]? = some base)
    (hall : ∀ j ∈ c.mro, (∃ d m, H[j]? = some d ∧ d.members.lookup name = some m) → j ∈ base.mro) :
    resolve H i name = resolve H b name := by
  obtain ⟨older, hcreated⟩ := hH i c hc
  obtain ⟨-, base', hmem, hget⟩ := hcreated.base_of_mem hb
  obtain rfl : base = base' := Option.some.inj (hbase.symm.trans hget)
  obtain ⟨rest, hmerge, hmro⟩ := hcreated.mro
  obtain ⟨rest', hmro', hresolve⟩ := resolve_eq hH hc name
  obtain rfl : rest = rest' := (List.cons.inj (hmro.symm.trans hmro')).2
  have hlist : base.mro ∈ older.map Class.mro ++ [c.bases] :=
    List.mem_append_left _ (List.mem_map_of_mem hmem)
  rw [hresolve, hnone, Option.none_or, resolve, hbase, Option.bind_some]
  refine Linearization.findSome?_merge hmerge hlist fun j hj hsome => ?_
  obtain ⟨m, hm⟩ := Option.isSome_iff_exists.mp hsome
  obtain ⟨d, hd, hm⟩ := Option.bind_eq_some_iff.mp hm
  exact hall j (hmro ▸ List.mem_cons_of_mem i hj) ⟨d, m, hd, hm⟩

theorem self_mem_mro (hH : AllCreated H) (hc : H[i]? = some c) : i ∈ c.mro := by
  obtain ⟨older, hcreated⟩ := hH i c hc
  obtain ⟨rest, -, hmro⟩ := hcreated.mro
  rw [hmro]
  exact List.mem_cons_self

/-- A class of one base has the linearization of the base after itself. -/
theorem mro_of_single (hH : AllCreated H) (hc : H[i]? = some c) (hsingle : c.bases = [b])
    (hbase : H[b]? = some base) {j : ℕ} (hj : j ∈ c.mro) : j = i ∨ j ∈ base.mro := by
  obtain ⟨older, hcreated⟩ := hH i c hc
  obtain ⟨rest, hmerge, hmro⟩ := hcreated.mro
  have holder : older = [base] := by
    have hbases := hcreated.bases
    rw [hsingle, List.forall₂_cons_left_iff] at hbases
    obtain ⟨base', older', ⟨-, hget⟩, hnil, rfl⟩ := hbases
    rw [List.forall₂_nil_left_iff.mp hnil, Option.some.inj (hbase.symm.trans hget)]
  rw [hmro] at hj
  refine (List.mem_cons.mp hj).imp_right fun hrest => ?_
  obtain ⟨l, hl, hj⟩ := (Linearization.mem_merge hmerge).mp hrest
  rw [holder, hsingle] at hl
  rcases List.mem_cons.mp hl with rfl | hl
  · exact hj
  · obtain rfl := List.mem_singleton.mp hl
    rw [List.mem_singleton.mp hj]
    exact self_mem_mro hH hbase

/-- Without multiple inheritance, decorators are all that is asked for. -/
theorem Decorated.faithful_of_single (hH : AllCreated H) (h : Decorated H)
    (hsingle : ∀ (i : ℕ) (c : Class), H[i]? = some c → c.bases.length ≤ 1) : Faithful H where
  decorated := h
  agrees := by
    intro i c name b hc hnone ⟨pre, post, hbases, _, _⟩
    have hb : b ∈ c.bases := by simp [hbases]
    have hone : c.bases = [b] := by
      have hlength := hsingle i c hc
      rw [hbases, List.length_append, List.length_cons] at hlength
      have hpre : pre = [] := List.eq_nil_of_length_eq_zero (by omega)
      have hpost : post = [] := List.eq_nil_of_length_eq_zero (by omega)
      rw [hbases, hpre, hpost, List.nil_append]
    obtain ⟨older, hcreated⟩ := hH i c hc
    obtain ⟨-, base, -, hbase⟩ := hcreated.base_of_mem hb
    rw [markerOf, markerOf, resolve_of_base hH hc hnone hb hbase fun j hj ⟨d, m, hd, hm⟩ => ?_]
    rcases mro_of_single hH hc hone hbase hj with rfl | hj
    · obtain rfl : c = d := Option.some.inj (hc.symm.trans hd)
      rw [hnone] at hm
      cases hm
    · exact hj

/-! ## The calls of the port -/

section Invoke

variable {A B : Type} {calls calls' : List (String × EffectIntent)}

theorem lift_bind_eq_ok {x : Except PyError A} {f : A → PortM B} {r : B × List (String × EffectIntent)}
    (h : ((liftM x : PortM A) >>= f) calls = .ok r) : ∃ a, x = .ok a ∧ f a calls = .ok r := by
  cases x with
  | error e => cases h
  | ok a => exact ⟨a, rfl, h⟩

theorem contractFor_eq_ok {rt : WorldRuntime} {obj obj' : WorldObject}
    {subjectRef affordance : String} {contract : AffordanceContract}
    (hobj : rt.objects subjectRef = some obj)
    (h : contractFor H rt subjectRef affordance = .ok (obj', contract)) :
    obj = obj' ∧ contractAt H obj.cls affordance = some contract := by
  rw [contractFor, hobj] at h
  dsimp only at h
  split at h
  · cases h
  · next hcontract =>
    obtain ⟨rfl, rfl⟩ := Prod.mk.inj (Except.ok.inj h)
    exact ⟨rfl, hcontract⟩

theorem execute_calls {port : String → EffectIntent → Except PyError EffectResult}
    {subjectRef : String} {intent : EffectIntent} {result : EffectResult}
    (h : execute port subjectRef intent calls = .ok (result, calls')) :
    calls' = calls ++ [(subjectRef, intent)] := by
  change (liftM (port subjectRef intent) : PortM EffectResult) (calls ++ [(subjectRef, intent)]) =
    .ok (result, calls') at h
  rcases hport : port subjectRef intent with e | result'
  · rw [hport] at h
    cases h
  · rw [hport] at h
    exact (Prod.mk.inj (Except.ok.inj h)).2.symm

/-- A method of an effect is settled by one call of the port. -/
theorem settle_effect {reprOf : String → String} {rt : WorldRuntime} {subjectRef affordance : String}
    {contract : AffordanceContract} {returned : Returned} {value : Invoked}
    (hkind : contract.kind = .effect)
    (h : settle reprOf rt subjectRef affordance contract returned calls = .ok (value, calls')) :
    ∃ intent, calls' = calls ++ [(subjectRef, intent)] := by
  rw [settle, if_neg (not_not.mpr hkind)] at h
  rcases hport : rt.effectPort with - | port
  · rw [hport] at h
    cases h
  · rw [hport] at h
    obtain ⟨intent, -, h⟩ := lift_bind_eq_ok h
    obtain ⟨⟨result, calls''⟩, hexecute, h⟩ := Fallible.bind_eq_ok.mp h
    refine ⟨intent, ?_⟩
    rw [← execute_calls hexecute]
    dsimp only at h
    split at h
    · cases h
    · exact (Prod.mk.inj (Except.ok.inj h)).2.symm

/-- Where contracts are of the functions that are run, an effect returns through the port. -/
theorem Honest.effectsPorted (h : Honest H) : EffectsPorted H := by
  intro reprOf rt obj subjectRef affordance arguments marker calls calls' value hobj hmarker hkind
    hinvoke
  obtain ⟨⟨obj', contract⟩, hfound, hinvoke⟩ := lift_bind_eq_ok hinvoke
  obtain ⟨validated, -, hinvoke⟩ := lift_bind_eq_ok hinvoke
  obtain ⟨returned, -, hinvoke⟩ := lift_bind_eq_ok hinvoke
  obtain ⟨rfl, hcontract⟩ := contractFor_eq_ok hobj hfound
  obtain ⟨marker', hmarker', hof⟩ := h obj.cls affordance contract hcontract
  obtain rfl : marker = marker' := Option.some.inj (hmarker.symm.trans hmarker')
  exact settle_effect (hof.kind.trans hkind) hinvoke

end Invoke

/-! ## When contracts hold -/

/-- Every contract of a program is that of the method it runs, and an effect returns only through
the port, exactly when no class redefines an affordance of a base without a decorator, and an
affordance that a class does not define has the marker there that it has in the last of the bases
that affords it. -/
theorem contracts_hold_iff {ds : List ClassDef} (hbuild : build ds = .ok H) :
    ContractsHold H ↔ Faithful H := by
  have hH : AllCreated H := build_created hbuild
  constructor
  · exact fun h => h.honest.faithful hH
  · intro h
    have honest : Honest H := h.honest hH
    exact ⟨honest, honest.effectsPorted⟩

section Sample

/-- `class WorldObject(BaseModel, metaclass=WorldObjectMeta)`. -/
def worldObject : ClassDef where
  name := "WorldObject"
  metaclass := true
  distinct := by simp

def opening (marker : Option Marker) : Member where
  marker := marker
  body := fun _ _ => .ok (.mapping [])

/-- A class with one method `open`. -/
def gate (name : String) (marker : Option Marker) (bases : List ℕ) : ClassDef where
  name := name
  bases := bases
  members := [("open", opening marker)]
  distinct := by simp

theorem contracts_hold_iff_sample :
    ∃ H, build [worldObject, gate "Gate" (some .sense) [0], gate "Door" (some .proof) [1]] = .ok H ∧
      (ContractsHold H ↔ Faithful H) := by
  obtain ⟨H, hbuild⟩ := Fallible.exists_eq_ok_of_isOk (x := build [worldObject,
    gate "Gate" (some .sense) [0], gate "Door" (some .proof) [1]]) (by decide)
  exact ⟨H, hbuild, contracts_hold_iff hbuild⟩

def openEffect : Marker := .effect "urn:open" (by decide)

/-- `class Both(Lock, Gate)` : the first base opens by an effect, the second by a sense. -/
def both : List ClassDef :=
  [worldObject, gate "Lock" (some openEffect) [0], gate "Gate" (some .sense) [0],
    { name := "Both", bases := [1, 2], distinct := by simp }]

/-- An object of `Both`, and no port. -/
def bothRuntime : WorldRuntime where
  objects := fun iri => if iri = "urn:both" then some ⟨"urn:both", 3, []⟩ else none

/-- Whether a run returns without a call of the port. -/
def returnsUnported : Except PyError (Invoked × List (String × EffectIntent)) → Bool
  | .ok (_, []) => true
  | _ => false

theorem exists_of_returnsUnported {r : Except PyError (Invoked × List (String × EffectIntent))}
    (h : returnsUnported r = true) : ∃ value, r = .ok (value, []) := by
  unfold returnsUnported at h
  split at h
  · next value => exact ⟨value, rfl⟩
  · cases h

/-- The method that is run is the first base's, and the contract is the second one's. -/
theorem contracts_do_not_hold : ∃ H, build both = .ok H ∧ ¬Honest H ∧ ¬EffectsPorted H := by
  obtain ⟨H, hbuild⟩ := Fallible.exists_eq_ok_of_isOk (x := build both) (by decide)
  have hfacts : ∀ H', build both = .ok H' → markerOf H' 3 "open" = some openEffect ∧
      (contractAt H' 3 "open").map (·.kind) = some .sense ∧
      returnsUnported (invoke id H' bothRuntime "urn:both" "open" [] []) = true := by
    intro H' hH'
    obtain rfl := Except.ok.inj hH'
    decide
  obtain ⟨hmarker, hkind, hreturns⟩ := hfacts H hbuild
  refine ⟨H, hbuild, fun hhonest => ?_, fun hported => ?_⟩
  · obtain ⟨contract, hcontract, hsense⟩ := Option.map_eq_some_iff.mp hkind
    obtain ⟨marker, hmarker', hof⟩ := hhonest 3 "open" contract hcontract
    obtain rfl : openEffect = marker := Option.some.inj (hmarker.symm.trans hmarker')
    exact absurd (hsense.symm.trans hof.kind) (by decide)
  · obtain ⟨value, hvalue⟩ := exists_of_returnsUnported hreturns
    obtain ⟨intent, hcalls⟩ := hported id bothRuntime ⟨"urn:both", 3, []⟩ "urn:both" "open" []
      openEffect [] [] value rfl hmarker rfl hvalue
    cases hcalls

end Sample

end World

end GymAct
