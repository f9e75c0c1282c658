import GymAct.DistinctKeys
import GymAct.Models
import Mathlib.Data.List.Perm.Subperm

/-!
# What a stored document reads back as

A durable ledger keeps the canonical text of a dump and parses it on every read. RFC 8785
writes a float of integral value below 1e21 without a fraction, and `json.loads` reads that
as an integer (`Value.reparse`). `==` does not see the difference
(`Value.pyEq_reparse`), and canonical text is a function of what is read back
(`Canon.OfDocument`), so a second canonicalization gives the same bytes as long as it
succeeds : an integer outside the domain of RFC 8785 is refused where the float was not
(`Value.isStable`).

`Receipt.modelValidate` is the reading of a whole receipt, and inverts the dump up to
`Value.reparse` (`Receipt.modelValidate_reparse`).
-/

namespace GymAct

open DistinctKeys

namespace Value

mutual

/-- `json.loads` of the canonical text. The keys of a dict keep their order, which neither
`==` nor canonicalization sees. -/
def reparse : Value → Value
  | .float (.finite q) =>
    if q.den = 1 ∧ q.num.natAbs < 10 ^ 21 then .int q.num else .float (.finite q)
  | .list items => .list (reparseList items)
  | .dict items => .dict (reparseItems items)
  | v => v

def reparseList : List Value → List Value
  | [] => []
  | v :: vs => v.reparse :: reparseList vs

def reparseItems : List (String × Value) → List (String × Value)
  | [] => []
  | (k, v) :: vs => (k, v.reparse) :: reparseItems vs

end

@[simp] theorem reparse_null : reparse .null = .null := by simp [reparse]

@[simp] theorem reparse_bool (b : Bool) : reparse (.bool b) = .bool b := by simp [reparse]

@[simp] theorem reparse_int (n : ℤ) : reparse (.int n) = .int n := by simp [reparse]

@[simp] theorem reparse_str (s : String) : reparse (.str s) = .str s := by simp [reparse]

@[simp] theorem reparse_ofOption (o : Option String) : (ofOption o).reparse = ofOption o := by
  cases o <;> simp [ofOption]

@[simp] theorem reparse_ofOptionBool (o : Option Bool) :
    (ofOptionBool o).reparse = ofOptionBool o := by
  cases o <;> simp [ofOptionBool]

@[simp] theorem reparse_dict (items : List (String × Value)) :
    reparse (.dict items) = .dict (reparseItems items) := by
  simp [reparse]

@[simp] theorem reparseItems_nil : reparseItems [] = [] := by simp [reparseItems]

@[simp] theorem reparseItems_cons (k : String) (v : Value) (vs : List (String × Value)) :
    reparseItems ((k, v) :: vs) = (k, v.reparse) :: reparseItems vs := by
  simp [reparseItems]

theorem reparse_list (items : List Value) :
    reparse (.list items) = .list (items.map reparse) := by
  have h : ∀ items, reparseList items = items.map reparse := by
    intro items
    induction items with
    | nil => simp [reparseList]
    | cons v vs ih => simp [reparseList, ih]
  simp [reparse, h]

@[simp] theorem reparse_ofStrings (xs : List String) : (ofStrings xs).reparse = ofStrings xs := by
  simp [ofStrings, reparse_list]

mutual

/-- Reading back twice is reading back once. -/
theorem reparse_reparse : ∀ v : Value, v.reparse.reparse = v.reparse
  | .null | .bool _ | .int _ | .str _ => by simp
  | .float .inf | .float .negInf | .float .nan => by simp [reparse]
  | .float (.finite q) => by
    by_cases hq : q.den = 1 ∧ q.num.natAbs < 10 ^ 21
    · rw [reparse, if_pos hq, reparse_int]
    · rw [reparse, if_neg hq, reparse, if_neg hq]
  | .list items => by simp [reparse, reparseList_reparseList items]
  | .dict items => by simp [reparseItems_reparseItems items]

theorem reparseList_reparseList :
    ∀ items : List Value, reparseList (reparseList items) = reparseList items
  | [] => by simp [reparseList]
  | v :: vs => by simp [reparseList, reparse_reparse v, reparseList_reparseList vs]

theorem reparseItems_reparseItems :
    ∀ items : List (String × Value), reparseItems (reparseItems items) = reparseItems items
  | [] => by simp
  | (k, v) :: vs => by simp [reparse_reparse v, reparseItems_reparseItems vs]

end

theorem number_reparse (q : ℚ) :
    (reparse (.float (.finite q))).number = some (.finite q) := by
  by_cases hq : q.den = 1 ∧ q.num.natAbs < 10 ^ 21
  · have : (q.num : ℚ) = q := Rat.den_eq_one_iff q |>.mp hq.1
    rw [reparse, if_pos hq, number, this]
  · rw [reparse, if_neg hq, number]

@[simp] theorem number_reparse_float : ∀ x : PyFloat, (reparse (.float x)).number = some x
  | .finite q => number_reparse q
  | .inf | .negInf | .nan => by simp [reparse, number]

/-- A number equals what its value equals. -/
theorem pyEq_of_number {v w : Value} {x : PyFloat} (hv : v.number = some x)
    (hw : w.number = some x) (u : Value) : v.pyEq u = w.pyEq u := by
  cases v <;> simp [number] at hv <;> cases w <;> simp [number] at hw <;>
    cases u <;> simp [pyEq, number, hv, hw]

mutual

/-- What is read back equals what was written. -/
theorem pyEq_reparse : ∀ v w : Value, v.reparse.pyEq w = v.pyEq w
  | .null, _ | .bool _, _ | .int _, _ | .str _, _ => by simp
  | .float .inf, _ | .float .negInf, _ | .float .nan, _ => by simp [reparse]
  | .float (.finite q), w => pyEq_of_number (number_reparse q) rfl w
  | .list items, w => by
    cases w <;> simp [reparse, pyEq, number, pyEqList_reparseList]
  | .dict items, w => by
    have hlen : (reparseItems items).length = items.length := length_reparseItems items
    cases w <;> simp [pyEq, number, pyEqItems_reparseItems, hlen]

theorem pyEqList_reparseList :
    ∀ vs ws : List Value, pyEqList (reparseList vs) ws = pyEqList vs ws
  | [], _ => by simp [reparseList]
  | v :: vs, [] => by simp [reparseList, pyEqList]
  | v :: vs, w :: ws => by
    simp [reparseList, pyEqList, pyEq_reparse v w, pyEqList_reparseList vs ws]

theorem pyEqItems_reparseItems :
    ∀ vs ws : List (String × Value), pyEqItems (reparseItems vs) ws = pyEqItems vs ws
  | [], _ => by simp
  | (k, v) :: vs, ws => by
    simp [pyEqItems, pyEqItems_reparseItems vs ws]
    cases ws.lookup k <;> simp [pyEq_reparse v]

theorem length_reparseItems :
    ∀ items : List (String × Value), (reparseItems items).length = items.length
  | [] => by simp
  | (k, v) :: vs => by simp [length_reparseItems vs]

end

/-! ### Where a second canonicalization fails -/

end Value

/-- A float whose text reads back as an integer outside the domain of RFC 8785. -/
def PyFloat.isWide : PyFloat → Bool
  | .finite q => q.den = 1 && 2 ^ 53 - 1 < q.num.natAbs && q.num.natAbs < 10 ^ 21
  | _ => false

namespace Value

mutual

/-- Some float of the value is wide. -/
def hasWide : Value → Bool
  | .float x => x.isWide
  | .list items => hasWideList items
  | .dict items => hasWideItems items
  | _ => false

def hasWideList : List Value → Bool
  | [] => false
  | v :: vs => v.hasWide || hasWideList vs

def hasWideItems : List (String × Value) → Bool
  | [] => false
  | (_, v) :: vs => v.hasWide || hasWideItems vs

end

theorem isCanonical_reparse_float (q : ℚ) :
    (reparse (.float (.finite q))).isCanonical = !(PyFloat.finite q).isWide := by
  by_cases hq : q.den = 1 ∧ q.num.natAbs < 10 ^ 21
  · rw [reparse, if_pos hq, isCanonical, PyFloat.isWide, hq.1, Bool.eq_iff_iff]
    simp only [decide_true, Bool.true_and, Bool.not_eq_true', Bool.and_eq_false_iff,
      decide_eq_true_eq, decide_eq_false_iff_not]
    omega
  · rw [reparse, if_neg hq, isCanonical, PyFloat.isWide, Bool.eq_iff_iff]
    simp only [Bool.not_eq_true', Bool.and_eq_false_iff, decide_eq_false_iff_not]
    grind

mutual

/-- What is read back is canonical when what was written is and holds no wide float. -/
theorem isCanonical_reparse :
    ∀ v : Value, v.reparse.isCanonical = (v.isCanonical && !v.hasWide)
  | .null | .bool _ | .int _ | .str _ => by simp [hasWide]
  | .float .inf | .float .negInf | .float .nan => by simp [reparse, isCanonical]
  | .float (.finite q) => by
    rw [isCanonical_reparse_float, isCanonical, hasWide, Bool.true_and]
  | .list items => by simp [reparse, isCanonical, hasWide, isCanonicalList_reparseList items]
  | .dict items => by simp [hasWide, isCanonicalItems_reparseItems items]

theorem isCanonicalList_reparseList :
    ∀ items : List Value,
      isCanonicalList (reparseList items) = (isCanonicalList items && !hasWideList items)
  | [] => by simp [reparseList, isCanonicalList, hasWideList]
  | v :: vs => by
    simp [reparseList, isCanonicalList, hasWideList, isCanonical_reparse v,
      isCanonicalList_reparseList vs]
    grind

theorem isCanonicalItems_reparseItems :
    ∀ items : List (String × Value),
      isCanonicalItems (reparseItems items) = (isCanonicalItems items && !hasWideItems items)
  | [] => by simp [hasWideItems]
  | (k, v) :: vs => by
    simp [hasWideItems, isCanonical_reparse v, isCanonicalItems_reparseItems vs]
    grind

end

/-! ### Dicts as Python has them -/

mutual

/-- No dict lists a key twice. -/
def keysUnique : Value → Bool
  | .list items => keysUniqueList items
  | .dict items => decide (items.map Prod.fst).Nodup && keysUniqueItems items
  | _ => true

def keysUniqueList : List Value → Bool
  | [] => true
  | v :: vs => v.keysUnique && keysUniqueList vs

def keysUniqueItems : List (String × Value) → Bool
  | [] => true
  | (_, v) :: vs => v.keysUnique && keysUniqueItems vs

end

theorem pyEqItems_of_lookup : ∀ {vs ws : List (String × Value)},
    (∀ e ∈ vs, ∃ w, ws.lookup e.1 = some w ∧ e.2.pyEq w = true) → pyEqItems vs ws = true
  | [], _, _ => by simp [pyEqItems]
  | (k, v) :: vs, ws, h => by
    obtain ⟨w, hw, hvw⟩ := h (k, v) (by simp)
    have hrest := pyEqItems_of_lookup fun e he => h e (List.mem_cons_of_mem _ he)
    simp only at hw hvw
    simp [pyEqItems, hw, hvw, hrest]

mutual

/-- A canonical value equals itself : it holds no NaN. -/
theorem pyEq_self : ∀ {v : Value}, v.isCanonical = true → v.keysUnique = true → v.pyEq v = true
  | .null, _, _ | .bool _, _, _ | .int _, _, _ | .str _, _, _ | .float (.finite _), _, _ => by
    simp [pyEq, number]
  | .float .inf, h, _ | .float .negInf, h, _ | .float .nan, h, _ => by simp [isCanonical] at h
  | .list items, h, hk => by
    rw [isCanonical] at h
    rw [keysUnique] at hk
    rw [pyEq, pyEqList_self h hk]
  | .dict items, h, hk => by
    rw [isCanonical] at h
    rw [keysUnique, Bool.and_eq_true, decide_eq_true_eq] at hk
    have hself := pyEqItems_self h hk.2
    have : pyEqItems items items = true :=
      pyEqItems_of_lookup fun e he => ⟨e.2, lookup_of_mem hk.1 he, hself e he⟩
    simp [pyEq, this]

theorem pyEqList_self : ∀ {vs : List Value}, isCanonicalList vs = true →
    keysUniqueList vs = true → pyEqList vs vs = true
  | [], _, _ => by simp [pyEqList]
  | v :: vs, h, hk => by
    rw [isCanonicalList, Bool.and_eq_true] at h
    rw [keysUniqueList, Bool.and_eq_true] at hk
    rw [pyEqList, pyEq_self h.1 hk.1, pyEqList_self h.2 hk.2, Bool.and_self]

theorem pyEqItems_self : ∀ {vs : List (String × Value)}, isCanonicalItems vs = true →
    keysUniqueItems vs = true → ∀ e ∈ vs, e.2.pyEq e.2 = true
  | [], _, _ => by simp
  | (k, v) :: vs, h, hk => by
    rw [isCanonicalItems, Bool.and_eq_true] at h
    rw [keysUniqueItems, Bool.and_eq_true] at hk
    intro e he
    rcases List.mem_cons.mp he with rfl | he
    · exact pyEq_self h.1 hk.1
    · exact pyEqItems_self h.2 hk.2 e he

end

theorem keysUnique_of_mem : ∀ {items : List (String × Value)}, keysUniqueItems items = true →
    ∀ e ∈ items, e.2.keysUnique = true
  | [], _ => by simp
  | (k, v) :: vs, h => by
    rw [keysUniqueItems, Bool.and_eq_true] at h
    intro e he
    rcases List.mem_cons.mp he with rfl | he
    · exact h.1
    · exact keysUnique_of_mem h.2 e he

theorem lookup_of_pyEqItems : ∀ {vs ws : List (String × Value)}, pyEqItems vs ws = true →
    ∀ e ∈ vs, ∃ w, ws.lookup e.1 = some w ∧ e.2.pyEq w = true
  | [], _, _ => by simp
  | (k, v) :: vs, ws, h => by
    rw [pyEqItems, Bool.and_eq_true] at h
    intro e he
    rcases List.mem_cons.mp he with rfl | he
    · cases hw : ws.lookup k with
      | none => simp [hw] at h
      | some w => exact ⟨w, rfl, by simpa [hw] using h.1⟩
    · exact lookup_of_pyEqItems h.2 e he

mutual

/-- `==` is symmetric. -/
theorem pyEq_symm : ∀ {v w : Value}, v.keysUnique = true → w.keysUnique = true →
    v.pyEq w = true → w.pyEq v = true
  | .null, w, _, _, h => by
    cases w with
    | float x => cases x <;> simp [pyEq, number] at h
    | _ => simp [pyEq, number] at h ⊢
  | .str s, w, _, _, h => by
    cases w with
    | float x => cases x <;> simp [pyEq, number] at h
    | str t =>
      rw [pyEq, beq_iff_eq] at h ⊢
      exact h.symm
    | _ => simp [pyEq, number] at h
  | .bool b, w, _, _, h => by
    cases w <;> simp [pyEq, number] at h ⊢ <;> grind
  | .int b, w, _, _, h => by
    cases w <;> simp [pyEq, number] at h ⊢ <;> grind
  | .float x, w, _, _, h => by
    cases w <;> simp [pyEq, number] at h ⊢ <;> grind
  | .list items, w, hv, hw, h => by
    cases w with
    | list others =>
      rw [keysUnique] at hv hw
      rw [pyEq] at h ⊢
      exact pyEqList_symm hv hw h
    | float x => cases x <;> simp [pyEq, number] at h
    | _ => simp [pyEq, number] at h
  | .dict items, w, hv, hw, h => by
    cases w with
    | dict others =>
      rw [keysUnique, Bool.and_eq_true, decide_eq_true_eq] at hv hw
      rw [pyEq, Bool.and_eq_true, beq_iff_eq] at h
      have hsymm := pyEqItems_symm hv.2
      have hlookup := lookup_of_pyEqItems h.2
      have hsub : items.map Prod.fst ⊆ others.map Prod.fst := fun k hk => by
        obtain ⟨e, he, rfl⟩ := List.mem_map.mp hk
        obtain ⟨w, hw, -⟩ := hlookup e he
        exact List.mem_map.mpr ⟨_, mem_of_lookup hw, rfl⟩
      -- As many keys, and all of them in the other dict : the same keys.
      have hperm : (items.map Prod.fst).Perm (others.map Prod.fst) :=
        (List.subperm_of_subset hv.1 hsub).perm_of_length_le (by simp [h.1])
      rw [pyEq, Bool.and_eq_true, beq_iff_eq]
      refine ⟨h.1.symm, pyEqItems_of_lookup fun e he => ?_⟩
      obtain ⟨e', he', hk⟩ := List.mem_map.mp (hperm.mem_iff.mpr (List.mem_map_of_mem he))
      obtain ⟨w, hlook, heq⟩ := hlookup e' he'
      rw [hk, lookup_of_mem hw.1 he, Option.some.injEq] at hlook
      subst hlook
      exact ⟨e'.2, lookup_of_mem hv.1 (hk ▸ he'),
        hsymm e' he' (keysUnique_of_mem hw.2 e he) heq⟩
    | float x => cases x <;> simp [pyEq, number] at h
    | _ => simp [pyEq, number] at h

theorem pyEqList_symm : ∀ {vs ws : List Value}, keysUniqueList vs = true →
    keysUniqueList ws = true → pyEqList vs ws = true → pyEqList ws vs = true
  | [], ws, _, _, h => by cases ws <;> simp [pyEqList] at h ⊢
  | v :: vs, ws, hv, hw, h => by
    cases ws with
    | nil => simp [pyEqList] at h
    | cons w ws =>
      rw [keysUniqueList, Bool.and_eq_true] at hv hw
      rw [pyEqList, Bool.and_eq_true] at h ⊢
      exact ⟨pyEq_symm hv.1 hw.1 h.1, pyEqList_symm hv.2 hw.2 h.2⟩

theorem pyEqItems_symm : ∀ {vs : List (String × Value)}, keysUniqueItems vs = true →
    ∀ e ∈ vs, ∀ {w : Value}, w.keysUnique = true → e.2.pyEq w = true → w.pyEq e.2 = true
  | [], _ => by simp
  | (k, v) :: vs, h => by
    rw [keysUniqueItems, Bool.and_eq_true] at h
    intro e he w hw heq
    rcases List.mem_cons.mp he with rfl | he
    · exact pyEq_symm h.1 hw heq
    · exact pyEqItems_symm h.2 e he hw heq

end

end Value

/-! ## Canonical text is of the document -/

/-- Values that read back as one document have one canonical text. -/
def Canon.OfDocument (C : Canon) : Prop :=
  ∀ v w : Value, v.isCanonical = true → w.isCanonical = true → v.reparse = w.reparse →
    C.dumps v = C.dumps w

namespace Value

mutual

/-- The text of a value, whatever its numbers are. -/
def text : Value → String
  | .null => "null"
  | .bool b => if b then "true" else "false"
  | .int n => toString n
  | .float (.finite q) =>
    if q.den = 1 then toString q.num else toString q.num ++ "/" ++ toString q.den
  | .float _ => ""
  | .str s => jsonString s
  | .list items => "[" ++ String.intercalate "," (textList items) ++ "]"
  | .dict items =>
    "\x7b" ++ String.intercalate ","
      (((textItems items).insertionSort fun a b => a.1 ≤ b.1).map
        fun t => jsonString t.1 ++ ":" ++ t.2) ++
    "\x7d"

def textList : List Value → List String
  | [] => []
  | v :: vs => v.text :: textList vs

def textItems : List (String × Value) → List (String × String)
  | [] => []
  | (k, v) :: vs => (k, v.text) :: textItems vs

end

mutual

theorem render_eq_text : ∀ {v : Value}, v.isCanonical = true → v.render = .ok v.text
  | .null, _ | .bool _, _ | .str _, _ | .float (.finite _), _ => by simp [render, text]
  | .float .inf, h | .float .negInf, h | .float .nan, h => by simp [isCanonical] at h
  | .int n, h => by
    have h : -(2 ^ 53 - 1) ≤ n ∧ n ≤ 2 ^ 53 - 1 := by simpa [isCanonical] using h
    rw [render, if_pos h, text]
  | .list items, h => by
    rw [isCanonical] at h
    rw [render, renderList_eq_text h, text, Except.map]
  | .dict items, h => by
    rw [isCanonical] at h
    rw [render, renderItems_eq_text h, text, Except.map]

theorem renderList_eq_text : ∀ {vs : List Value}, isCanonicalList vs = true →
    renderList vs = .ok (textList vs)
  | [], _ => by simp [renderList, textList]
  | v :: vs, h => by
    rw [isCanonicalList, Bool.and_eq_true] at h
    rw [renderList, render_eq_text h.1, renderList_eq_text h.2, textList]

theorem renderItems_eq_text : ∀ {vs : List (String × Value)}, isCanonicalItems vs = true →
    renderItems vs = .ok (textItems vs)
  | [], _ => by simp [renderItems, textItems]
  | (k, v) :: vs, h => by
    rw [isCanonicalItems, Bool.and_eq_true] at h
    rw [renderItems, render_eq_text h.1, renderItems_eq_text h.2, textItems]

end

mutual

theorem text_reparse : ∀ v : Value, v.reparse.text = v.text
  | .null | .bool _ | .int _ | .str _ => by simp
  | .float .inf | .float .negInf | .float .nan => by simp [reparse]
  | .float (.finite q) => by
    by_cases hq : q.den = 1 ∧ q.num.natAbs < 10 ^ 21
    · rw [reparse, if_pos hq, text, text, if_pos hq.1]
    · rw [reparse, if_neg hq]
  | .list items => by simp [reparse, text, textList_reparseList items]
  | .dict items => by simp [text, textItems_reparseItems items]

theorem textList_reparseList : ∀ vs : List Value, textList (reparseList vs) = textList vs
  | [] => by simp [reparseList]
  | v :: vs => by simp [reparseList, textList, text_reparse v, textList_reparseList vs]

theorem textItems_reparseItems :
    ∀ vs : List (String × Value), textItems (reparseItems vs) = textItems vs
  | [] => by simp
  | (k, v) :: vs => by simp [textItems, text_reparse v, textItems_reparseItems vs]

end

end Value

theorem Canon.reference_ofDocument : reference.OfDocument := by
  intro v w hv hw h
  have htext : v.text = w.text := by rw [← v.text_reparse, h, w.text_reparse]
  simp only [reference, Value.render_eq_text hv, Value.render_eq_text hw, htext]

/-! ## Receipts -/

namespace Value

def readStr : Value → Option String
  | .str s => some s
  | _ => none

def readOption : Value → Option (Option String)
  | .null => some none
  | .str s => some (some s)
  | _ => none

def readOptionBool : Value → Option (Option Bool)
  | .null => some none
  | .bool b => some (some b)
  | _ => none

def readDict : Value → Option Payload
  | .dict items => some items
  | _ => none

/-- A sequence whose items are all read by `read`. -/
def readList {α : Type} (read : Value → Option α) : Value → Option (List α)
  | .list items => items.mapM read
  | _ => none

@[simp] theorem readOption_ofOption (o : Option String) : (ofOption o).readOption = some o := by
  cases o <;> rfl

@[simp] theorem readOptionBool_ofOptionBool (o : Option Bool) :
    (ofOptionBool o).readOptionBool = some o := by
  cases o <;> rfl

theorem readList_map {α β : Type} {read : Value → Option α} {write : β → Value} {f : β → α}
    (h : ∀ b, read (write b) = some (f b)) (bs : List β) :
    readList read (.list (bs.map write)) = some (bs.map f) := by
  change (bs.map write).mapM read = some (bs.map f)
  induction bs with
  | nil => rfl
  | cons b bs ih => simp [h, ih]

@[simp] theorem readList_ofStrings (xs : List String) :
    readList readStr (ofStrings xs) = some xs := by
  have := readList_map (f := id) (fun s => (rfl : readStr (.str s) = some s)) xs
  simpa [ofStrings] using this

end Value

/-- The operation of a value. -/
def Operation.ofValue (s : String) : Option Operation :=
  [discover, materialize, observe, act, verify, checkpoint, restore, teardown].find?
    (·.value == s)

@[simp] theorem Operation.ofValue_value (o : Operation) : ofValue o.value = some o := by
  cases o <;> decide

/-- The standing of a value. -/
def Standing.ofValue (s : String) : Option Standing :=
  [unknown, candidate, structural, partialAlive, alive, adopted, blocked, buildBroken, unsupported,
    requiresConfiguration, refused, uncertain, stale].find? (·.value == s)

@[simp] theorem Standing.ofValue_value (x : Standing) : ofValue x.value = some x := by
  cases x <;> decide

def CostKind.ofValue (s : String) : Option CostKind :=
  [declaredEstimate, observedActual].find? (·.value == s)

@[simp] theorem CostKind.ofValue_value (k : CostKind) : ofValue k.value = some k := by
  cases k <;> decide

/-- `CostDimension.model_validate` : any number is read as a float. -/
def CostDimension.modelValidate : Value → Option CostDimension
  | .dict items => do
    if items.all (fun e => e.1 ∈ ["unit", "quantity", "kind", "source"]) = false then failure
    let unit ← (← items.lookup "unit").readStr
    let quantity ← (← items.lookup "quantity").number
    let kind ← CostKind.ofValue (← (← items.lookup "kind").readStr)
    let source ← (← items.lookup "source").readStr
    pure { unit, quantity, kind, source }
  | _ => none

theorem CostDimension.modelValidate_reparse (c : CostDimension) :
    modelValidate c.modelDump.reparse = some c := by
  simp [modelDump, modelValidate, List.lookup_cons, List.lookup_nil, Value.readStr]

namespace Receipt

/-- The fields of a receipt, by their names. -/
def fieldNames : List String :=
  ["receipt_id", "occurred_at", "episode_id", "operation", "standing", "subject_ref",
    "capability_ref", "authority_ref", "authority_evidence_ref", "principal",
    "delegated_principal", "policy_revision", "intended_effects", "idempotency_key",
    "planning_provenance_digest", "pre_state_digest", "post_state_digest",
    "acknowledgement_status", "world_changed", "verification_id", "verified",
    "observation_confidence", "possibility_graph_digest", "possibility_exploration_digest",
    "possibility_path_id", "possibility_morphism_id", "selection_digest", "selection_basis_refs",
    "parent_receipt_ids", "error_digest", "reason", "costs"]

/-- `Receipt.model_validate` of a document that lists every field, as a dump does. -/
def modelValidate : Value → Option Receipt
  | .dict items => do
    if items.all (fun e => e.1 ∈ fieldNames) = false then failure
    let receiptId ← (← items.lookup "receipt_id").readStr
    let occurredAt ← (← items.lookup "occurred_at").readStr
    let episodeId ← (← items.lookup "episode_id").readStr
    let operation ← Operation.ofValue (← (← items.lookup "operation").readStr)
    let standing ← Standing.ofValue (← (← items.lookup "standing").readStr)
    let subjectRef ← (← items.lookup "subject_ref").readOption
    let capabilityRef ← (← items.lookup "capability_ref").readOption
    let authorityRef ← (← items.lookup "authority_ref").readOption
    let authorityEvidenceRef ← (← items.lookup "authority_evidence_ref").readOption
    let principal ← (← items.lookup "principal").readOption
    let delegatedPrincipal ← (← items.lookup "delegated_principal").readOption
    let policyRevision ← (← items.lookup "policy_revision").readOption
    let intendedEffects ← (← items.lookup "intended_effects").readList Value.readDict
    let idempotencyKey ← (← items.lookup "idempotency_key").readOption
    let planningProvenanceDigest ← (← items.lookup "planning_provenance_digest").readOption
    let preStateDigest ← (← items.lookup "pre_state_digest").readOption
    let postStateDigest ← (← items.lookup "post_state_digest").readOption
    let acknowledgementStatus ← (← items.lookup "acknowledgement_status").readOption
    let worldChanged ← (← items.lookup "world_changed").readOptionBool
    let verificationId ← (← items.lookup "verification_id").readOption
    let verified ← (← items.lookup "verified").readOptionBool
    let observationConfidence ← (← items.lookup "observation_confidence").readOption
    let possibilityGraphDigest ← (← items.lookup "possibility_graph_digest").readOption
    let possibilityExplorationDigest ← (← items.lookup "possibility_exploration_digest").readOption
    let possibilityPathId ← (← items.lookup "possibility_path_id").readOption
    let possibilityMorphismId ← (← items.lookup "possibility_morphism_id").readOption
    let selectionDigest ← (← items.lookup "selection_digest").readOption
    let selectionBasisRefs ← (← items.lookup "selection_basis_refs").readList Value.readStr
    let parentReceiptIds ← (← items.lookup "parent_receipt_ids").readList Value.readStr
    let errorDigest ← (← items.lookup "error_digest").readOption
    let reason ← (← items.lookup "reason").readOption
    let costs ← (← items.lookup "costs").readList CostDimension.modelValidate
    pure
      { receiptId, occurredAt, episodeId, operation, standing, subjectRef, capabilityRef,
        authorityRef, authorityEvidenceRef, principal, delegatedPrincipal, policyRevision,
        intendedEffects, idempotencyKey, planningProvenanceDigest, preStateDigest, postStateDigest,
        acknowledgementStatus, worldChanged, verificationId, verified, observationConfidence,
        possibilityGraphDigest, possibilityExplorationDigest, possibilityPathId,
        possibilityMorphismId, selectionDigest, selectionBasisRefs, parentReceiptIds, errorDigest,
        reason, costs }
  | _ => none

/-- A receipt as it is read back : its intended effects are. -/
def reparsed (r : Receipt) : Receipt :=
  { r with intendedEffects := r.intendedEffects.map Value.reparseItems }

theorem modelValidate_reparse (r : Receipt) :
    modelValidate r.modelDump.reparse = some r.reparsed := by
  have heffects : Value.readList Value.readDict
      (.list (r.intendedEffects.map (Value.reparse ∘ Value.dict))) =
        some (r.intendedEffects.map Value.reparseItems) :=
    Value.readList_map (fun e => by simp [Value.readDict]) _
  have hcosts : Value.readList CostDimension.modelValidate
      (.list (r.costs.map (Value.reparse ∘ CostDimension.modelDump))) = some (r.costs.map id) :=
    Value.readList_map CostDimension.modelValidate_reparse _
  rw [List.map_id] at hcosts
  simp [modelDump, modelValidate, fieldNames, List.lookup_cons, List.lookup_nil, Value.readStr, Value.reparse_list,
    heffects, hcosts, reparsed]

theorem reparse_reparsed (r : Receipt) : r.reparsed.modelDump.reparse = r.modelDump.reparse := by
  simp [modelDump, reparsed, Value.reparse_list, Value.reparseItems_reparseItems]

/-- A receipt read back equals the receipt. -/
theorem pyEq_reparsed (r s : Receipt) : r.reparsed.pyEq s = r.pyEq s := by
  rw [pyEq, ← Value.pyEq_reparse, reparse_reparsed, Value.pyEq_reparse, pyEq]

theorem isCanonical_effects {r : Receipt} (h : r.modelDump.isCanonical = true) {e : Payload}
    (he : e ∈ r.intendedEffects) : (Value.dict e).isCanonical = true := by
  have hlist : (Value.list (r.intendedEffects.map .dict)).isCanonical = true := by
    simp only [modelDump, Value.isCanonical_dict, Value.isCanonicalItems_cons,
      Bool.and_eq_true] at h
    exact h.2.2.2.2.2.2.2.2.2.2.2.2.1
  exact (Value.isCanonical_list_iff _).mp hlist _ (List.mem_map_of_mem he)

theorem isCanonical_costs {r : Receipt} (h : r.modelDump.isCanonical = true) {c : CostDimension}
    (hc : c ∈ r.costs) : c.modelDump.isCanonical = true := by
  have hlist : (Value.list (r.costs.map CostDimension.modelDump)).isCanonical = true := by
    simp only [modelDump, Value.isCanonical_dict, Value.isCanonicalItems_cons,
      Bool.and_eq_true] at h
    grind
  exact (Value.isCanonical_list_iff _).mp hlist _ (List.mem_map_of_mem hc)

/-- Some intended effect holds a wide float. -/
def hasWideEffect (r : Receipt) : Bool := r.intendedEffects.any fun e => (Value.dict e).hasWide

/-- The costs of a receipt stay floats, so that its effects alone can leave RFC 8785 when
they are read back. -/
theorem isCanonical_reparsed {r : Receipt} (h : r.modelDump.isCanonical = true)
    (hwide : r.hasWideEffect = false) : r.reparsed.modelDump.isCanonical = true := by
  refine modelDump_isCanonical _ (fun e he => ?_) fun c hc => isCanonical_costs h hc
  obtain ⟨d, hd, rfl⟩ := List.mem_map.mp he
  have hnot : (Value.dict d).hasWide = false := by
    simpa using List.any_eq_false.mp hwide d hd
  rw [← Value.reparse_dict, Value.isCanonical_reparse, isCanonical_effects h hd, hnot]
  rfl

theorem narrow_of_reparsed {r : Receipt} (h : r.reparsed.modelDump.isCanonical = true) :
    r.hasWideEffect = false := by
  refine List.any_eq_false.mpr fun e he => ?_
  have hcanonical := isCanonical_effects h (List.mem_map_of_mem he)
  rw [← Value.reparse_dict, Value.isCanonical_reparse, Bool.and_eq_true] at hcanonical
  simpa using hcanonical.2

/-- Digesting a receipt read back gives the digest it was recorded under. -/
theorem digest_reparsed {C : Canon} (hD : C.OfDocument) {r : Receipt}
    (h : r.modelDump.isCanonical = true) (hwide : r.hasWideEffect = false) :
    C.digest r.reparsed.modelDump = C.digest r.modelDump :=
  Canon.digest_congr (hD _ _ (isCanonical_reparsed h hwide) h r.reparse_reparsed)

end Receipt

end GymAct
