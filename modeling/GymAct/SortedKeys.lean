import GymAct.Reparse
import Mathlib.Data.String.Basic

/-!
# Documents with sorted keys

`json.dumps(value, sort_keys=True)` and `json.loads` : what is read is the value with the keys
of each dict in order (`Value.sortKeys`), numbers and texts as they were. `==` does not see the
difference (`Value.pyEq_sortKeys`), and neither does canonicalization, which sorts keys itself
(`Canon.SortsKeys`).
-/

namespace GymAct

open DistinctKeys

/-- Items of distinct keys are sorted in one way. -/
theorem insertionSort_eq_of_perm {α : Type} {l l' : List (String × α)}
    (hnodup : (l.map Prod.fst).Nodup) (h : l.Perm l') :
    (l.insertionSort fun a b => a.1 ≤ b.1) = l'.insertionSort fun a b => a.1 ≤ b.1 := by
  have hsorted (l : List (String × α)) :
      (l.insertionSort fun a b => a.1 ≤ b.1).Pairwise fun a b => a.1 ≤ b.1 :=
    List.pairwise_insertionSort _ _
  have hperm : (l.insertionSort fun a b => a.1 ≤ b.1).Perm
      (l'.insertionSort fun a b => a.1 ≤ b.1) :=
    (List.perm_insertionSort _ _).trans (h.trans (List.perm_insertionSort _ _).symm)
  refine hperm.eq_of_pairwise (fun a b ha hb hab hba => ?_) (hsorted l) (hsorted l')
  have ha' : a ∈ l := (List.mem_insertionSort _).mp ha
  have hb' : b ∈ l := h.symm.subset ((List.mem_insertionSort _).mp hb)
  exact List.inj_on_of_nodup_map hnodup ha' hb' (le_antisymm hab hba)

/-- The items in the order of their keys. -/
def Payload.sorted (items : Payload) : Payload := items.insertionSort fun a b => a.1 ≤ b.1

theorem Payload.sorted_perm (items : Payload) : items.sorted.Perm items :=
  List.perm_insertionSort _ _

theorem Payload.sorted_sorted (items : Payload) : items.sorted.sorted = items.sorted :=
  (List.pairwise_insertionSort (fun a b : String × Value => a.1 ≤ b.1) items).insertionSort_eq

namespace Value

mutual

/-- `json.loads(json.dumps(value, sort_keys=True))`. -/
def sortKeys : Value → Value
  | .list items => .list (sortKeysList items)
  | .dict items => .dict (Payload.sorted (sortKeysItems items))
  | v => v

def sortKeysList : List Value → List Value
  | [] => []
  | v :: vs => v.sortKeys :: sortKeysList vs

def sortKeysItems : List (String × Value) → List (String × Value)
  | [] => []
  | (k, v) :: vs => (k, v.sortKeys) :: sortKeysItems vs

end

@[simp] theorem sortKeys_null : sortKeys .null = .null := by simp [sortKeys]

@[simp] theorem sortKeys_bool (b : Bool) : sortKeys (.bool b) = .bool b := by simp [sortKeys]

@[simp] theorem sortKeys_int (n : ℤ) : sortKeys (.int n) = .int n := by simp [sortKeys]

@[simp] theorem sortKeys_float (x : PyFloat) : sortKeys (.float x) = .float x := by simp [sortKeys]

@[simp] theorem sortKeys_str (s : String) : sortKeys (.str s) = .str s := by simp [sortKeys]

@[simp] theorem sortKeys_ofOption (o : Option String) : (ofOption o).sortKeys = ofOption o := by
  cases o <;> simp [ofOption]

theorem sortKeysItems_eq (items : List (String × Value)) :
    sortKeysItems items = items.map fun e => (e.1, e.2.sortKeys) := by
  induction items with
  | nil => simp [sortKeysItems]
  | cons e items ih =>
    obtain ⟨k, v⟩ := e
    simp [sortKeysItems, ih]

theorem sortKeysList_eq (items : List Value) : sortKeysList items = items.map sortKeys := by
  induction items with
  | nil => simp [sortKeysList]
  | cons v items ih => simp [sortKeysList, ih]

@[simp] theorem sortKeys_ofStrings (xs : List String) :
    (ofStrings xs).sortKeys = ofStrings xs := by
  simp [ofStrings, sortKeys, sortKeysList_eq, Function.comp_def]

theorem sortKeys_dict (items : Payload) :
    sortKeys (.dict items) = .dict (Payload.sorted (sortKeysItems items)) := by
  simp [sortKeys]

theorem keys_sortKeysItems (items : List (String × Value)) :
    (sortKeysItems items).map Prod.fst = items.map Prod.fst := by
  simp [sortKeysItems_eq, Function.comp_def]

theorem nodup_keys_sorted {items : Payload} (h : (items.map Prod.fst).Nodup) :
    ((Payload.sorted items).map Prod.fst).Nodup :=
  ((Payload.sorted_perm items).map Prod.fst).nodup_iff.mpr h

/-! ### Looking a key up -/

theorem lookup_sortKeysItems (items : List (String × Value)) (k : String) :
    (sortKeysItems items).lookup k = (items.lookup k).map sortKeys := by
  induction items with
  | nil => simp [sortKeysItems]
  | cons e items ih =>
    obtain ⟨l, v⟩ := e
    rw [sortKeysItems, List.lookup_cons, List.lookup_cons]
    by_cases hk : k = l
    · simp [hk]
    · simp [beq_false_of_ne hk, ih]

theorem lookup_sorted {items : Payload} (hnodup : (items.map Prod.fst).Nodup) (k : String) :
    (Payload.sorted (sortKeysItems items)).lookup k = (items.lookup k).map sortKeys := by
  have hnodup' : ((Payload.sorted (sortKeysItems items)).map Prod.fst).Nodup :=
    nodup_keys_sorted (by rwa [keys_sortKeysItems])
  rw [lookup_perm hnodup' (Payload.sorted_perm _), lookup_sortKeysItems]

/-! ### What does not change -/

theorem mem_sorted {items : Payload} {e : String × Value} :
    e ∈ Payload.sorted (sortKeysItems items) ↔ ∃ v, (e.1, v) ∈ items ∧ v.sortKeys = e.2 := by
  rw [(Payload.sorted_perm _).mem_iff, sortKeysItems_eq, List.mem_map]
  constructor
  · rintro ⟨⟨k, v⟩, hmem, rfl⟩
    exact ⟨v, hmem, rfl⟩
  · rintro ⟨v, hmem, hv⟩
    exact ⟨(e.1, v), hmem, Prod.ext rfl hv⟩

theorem sortKeysItems_sorted (items : Payload) :
    sortKeysItems (Payload.sorted items) = Payload.sorted (sortKeysItems items) := by
  rw [sortKeysItems_eq, sortKeysItems_eq]
  exact List.map_insertionSort _ _ _ _ fun _ _ _ _ => Iff.rfl

mutual

/-- Sorted keys stay. -/
theorem sortKeys_sortKeys : ∀ v : Value, v.sortKeys.sortKeys = v.sortKeys
  | .null | .bool _ | .int _ | .float _ | .str _ => by simp
  | .list items => by simp [sortKeys, sortKeysList_sortKeysList items]
  | .dict items => by
    rw [sortKeys_dict, sortKeys_dict, sortKeysItems_sorted, Payload.sorted_sorted,
      sortKeysItems_sortKeysItems items]

theorem sortKeysList_sortKeysList : ∀ items : List Value,
    sortKeysList (sortKeysList items) = sortKeysList items
  | [] => by simp [sortKeysList]
  | v :: vs => by simp [sortKeysList, sortKeys_sortKeys v, sortKeysList_sortKeysList vs]

theorem sortKeysItems_sortKeysItems : ∀ items : List (String × Value),
    sortKeysItems (sortKeysItems items) = sortKeysItems items
  | [] => by simp [sortKeysItems]
  | (k, v) :: vs => by simp [sortKeysItems, sortKeys_sortKeys v, sortKeysItems_sortKeysItems vs]

end

theorem keysUniqueItems_iff (items : List (String × Value)) :
    keysUniqueItems items = true ↔ ∀ e ∈ items, e.2.keysUnique = true := by
  induction items with
  | nil => simp [keysUniqueItems]
  | cons e items ih =>
    obtain ⟨k, v⟩ := e
    simp [keysUniqueItems, ih]

theorem keysUnique_dict_iff (items : Payload) :
    (Value.dict items).keysUnique = true ↔
      (items.map Prod.fst).Nodup ∧ keysUniqueItems items = true := by
  simp [keysUnique]

mutual

theorem keysUnique_sortKeys : ∀ {v : Value}, v.keysUnique = true → v.sortKeys.keysUnique = true
  | .null, _ | .bool _, _ | .int _, _ | .float _, _ | .str _, _ => by simp [keysUnique]
  | .list items, h => by
    rw [keysUnique] at h
    rw [sortKeys, keysUnique]
    exact keysUniqueList_sortKeysList h
  | .dict items, h => by
    obtain ⟨hnodup, hitems⟩ := (keysUnique_dict_iff items).mp h
    rw [sortKeys_dict, keysUnique_dict_iff]
    refine ⟨nodup_keys_sorted (by rwa [keys_sortKeysItems]), (keysUniqueItems_iff _).mpr ?_⟩
    intro e he
    exact (keysUniqueItems_iff _).mp (keysUniqueItems_sortKeysItems hitems) e
      ((Payload.sorted_perm _).mem_iff.mp he)

theorem keysUniqueList_sortKeysList : ∀ {items : List Value}, keysUniqueList items = true →
    keysUniqueList (sortKeysList items) = true
  | [], _ => by simp [sortKeysList, keysUniqueList]
  | v :: vs, h => by
    rw [keysUniqueList, Bool.and_eq_true] at h
    rw [sortKeysList, keysUniqueList, keysUnique_sortKeys h.1, keysUniqueList_sortKeysList h.2,
      Bool.and_self]

theorem keysUniqueItems_sortKeysItems : ∀ {items : List (String × Value)},
    keysUniqueItems items = true → keysUniqueItems (sortKeysItems items) = true
  | [], _ => by simp [sortKeysItems, keysUniqueItems]
  | (k, v) :: vs, h => by
    rw [keysUniqueItems, Bool.and_eq_true] at h
    rw [sortKeysItems, keysUniqueItems, keysUnique_sortKeys h.1, keysUniqueItems_sortKeysItems h.2,
      Bool.and_self]

end

mutual

/-- A canonical value equals itself with its keys sorted. -/
theorem pyEq_sortKeys : ∀ {v : Value}, v.isCanonical = true → v.keysUnique = true →
    v.sortKeys.pyEq v = true
  | .null, _, _ | .bool _, _, _ | .int _, _, _ | .str _, _, _ | .float (.finite _), _, _ => by
    simp [pyEq, number]
  | .float .inf, h, _ | .float .negInf, h, _ | .float .nan, h, _ => by simp [isCanonical] at h
  | .list items, h, hk => by
    rw [isCanonical] at h
    rw [keysUnique] at hk
    rw [sortKeys, pyEq, pyEqList_sortKeysList h hk]
  | .dict items, h, hk => by
    rw [isCanonical] at h
    obtain ⟨hnodup, hitems⟩ := (keysUnique_dict_iff items).mp hk
    have hlength : (Payload.sorted (sortKeysItems items)).length = items.length := by
      rw [(Payload.sorted_perm _).length_eq, sortKeysItems_eq, List.length_map]
    have hall : pyEqItems (Payload.sorted (sortKeysItems items)) items = true := by
      refine pyEqItems_of_lookup fun e he => ?_
      obtain ⟨v, hv, he⟩ := mem_sorted.mp he
      exact ⟨v, lookup_of_mem hnodup hv, he ▸ pyEqItems_sortKeysItems h hitems _ hv⟩
    rw [sortKeys_dict, pyEq, hlength, hall, beq_self_eq_true, Bool.and_self]

theorem pyEqList_sortKeysList : ∀ {vs : List Value}, isCanonicalList vs = true →
    keysUniqueList vs = true → pyEqList (sortKeysList vs) vs = true
  | [], _, _ => by simp [sortKeysList, pyEqList]
  | v :: vs, h, hk => by
    rw [isCanonicalList, Bool.and_eq_true] at h
    rw [keysUniqueList, Bool.and_eq_true] at hk
    rw [sortKeysList, pyEqList, pyEq_sortKeys h.1 hk.1, pyEqList_sortKeysList h.2 hk.2,
      Bool.and_self]

theorem pyEqItems_sortKeysItems : ∀ {vs : List (String × Value)}, isCanonicalItems vs = true →
    keysUniqueItems vs = true → ∀ e ∈ vs, e.2.sortKeys.pyEq e.2 = true
  | [], _, _ => by simp
  | (k, v) :: vs, h, hk => by
    rw [isCanonicalItems, Bool.and_eq_true] at h
    rw [keysUniqueItems, Bool.and_eq_true] at hk
    intro e he
    rcases List.mem_cons.mp he with rfl | he
    · exact pyEq_sortKeys h.1 hk.1
    · exact pyEqItems_sortKeysItems h.2 hk.2 e he

end

theorem isCanonicalItems_iff (items : List (String × Value)) :
    isCanonicalItems items = true ↔ ∀ e ∈ items, e.2.isCanonical = true := by
  induction items with
  | nil => simp
  | cons e items ih =>
    obtain ⟨k, v⟩ := e
    simp [ih]

mutual

theorem isCanonical_sortKeys : ∀ {v : Value}, v.isCanonical = true → v.sortKeys.isCanonical = true
  | .null, _ | .bool _, _ | .str _, _ => by simp
  | .int n, h | .float _, h => by simpa using h
  | .list items, h => by
    rw [isCanonical] at h
    rw [sortKeys, isCanonical]
    exact isCanonicalList_sortKeysList h
  | .dict items, h => by
    rw [isCanonical] at h
    rw [sortKeys_dict, isCanonical, isCanonicalItems_iff]
    intro e he
    exact (isCanonicalItems_iff _).mp (isCanonicalItems_sortKeysItems h) e
      ((Payload.sorted_perm _).mem_iff.mp he)

theorem isCanonicalList_sortKeysList : ∀ {vs : List Value}, isCanonicalList vs = true →
    isCanonicalList (sortKeysList vs) = true
  | [], _ => by simp [sortKeysList, isCanonicalList]
  | v :: vs, h => by
    rw [isCanonicalList, Bool.and_eq_true] at h
    rw [sortKeysList, isCanonicalList, isCanonical_sortKeys h.1, isCanonicalList_sortKeysList h.2,
      Bool.and_self]

theorem isCanonicalItems_sortKeysItems : ∀ {vs : List (String × Value)},
    isCanonicalItems vs = true → isCanonicalItems (sortKeysItems vs) = true
  | [], _ => by simp [sortKeysItems]
  | (k, v) :: vs, h => by
    rw [isCanonicalItems, Bool.and_eq_true] at h
    rw [sortKeysItems, isCanonicalItems, isCanonical_sortKeys h.1, isCanonicalItems_sortKeysItems h.2,
      Bool.and_self]

end

/-! ### Its canonical text -/

theorem textItems_eq (items : List (String × Value)) :
    textItems items = items.map fun e => (e.1, e.2.text) := by
  induction items with
  | nil => simp [textItems]
  | cons e items ih =>
    obtain ⟨k, v⟩ := e
    simp [textItems, ih]

mutual

theorem text_sortKeys : ∀ {v : Value}, v.keysUnique = true → v.sortKeys.text = v.text
  | .null, _ | .bool _, _ | .int _, _ | .float _, _ | .str _, _ => by simp
  | .list items, h => by
    rw [keysUnique] at h
    rw [sortKeys, text, text, textList_sortKeysList h]
  | .dict items, h => by
    obtain ⟨hnodup, hitems⟩ := (keysUnique_dict_iff items).mp h
    have hperm : (textItems (Payload.sorted (sortKeysItems items))).Perm (textItems items) := by
      rw [← textItems_sortKeysItems hitems, textItems_eq, textItems_eq (sortKeysItems items)]
      exact (Payload.sorted_perm _).map _
    have hkeys : ((textItems items).map Prod.fst).Nodup := by
      rw [textItems_eq, List.map_map]
      exact hnodup
    rw [sortKeys_dict, text, text, ← insertionSort_eq_of_perm hkeys hperm.symm]

theorem textList_sortKeysList : ∀ {vs : List Value}, keysUniqueList vs = true →
    textList (sortKeysList vs) = textList vs
  | [], _ => by simp [sortKeysList]
  | v :: vs, h => by
    rw [keysUniqueList, Bool.and_eq_true] at h
    rw [sortKeysList, textList, textList, text_sortKeys h.1, textList_sortKeysList h.2]

theorem textItems_sortKeysItems : ∀ {vs : List (String × Value)}, keysUniqueItems vs = true →
    textItems (sortKeysItems vs) = textItems vs
  | [], _ => by simp [sortKeysItems]
  | (k, v) :: vs, h => by
    rw [keysUniqueItems, Bool.and_eq_true] at h
    rw [sortKeysItems, textItems, textItems, text_sortKeys h.1, textItems_sortKeysItems h.2]

end

end Value

/-- RFC 8785 sorts the keys of a dict. -/
def Canon.SortsKeys (C : Canon) : Prop :=
  ∀ v : Value, v.isCanonical = true → v.keysUnique = true → C.dumps v.sortKeys = C.dumps v

theorem Canon.reference_sortsKeys : reference.SortsKeys := by
  intro v hv hk
  simp only [reference, Value.render_eq_text hv,
    Value.render_eq_text (Value.isCanonical_sortKeys hv), Value.text_sortKeys hk]

end GymAct
