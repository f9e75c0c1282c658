import Mathlib.Algebra.Ring.Int.Defs
import Mathlib.Algebra.Ring.Nat
import Mathlib.Algebra.Ring.Rat
import Mathlib.Data.List.Sort
import Mathlib.Data.String.Basic
import Mathlib.Logic.Function.Basic

/-!
# Python values and their canonical bytes

The values that cross GymAct's boundary are what `json` can carry : `None`, booleans,
integers, floats, strings, lists and dicts with string keys (`Value`). RFC 8785
canonicalization and BLAKE3 come from third-party packages and are the parameter
`Canon`. What the code relies on is stated where it is used : that canonicalization
succeeds on the values RFC 8785 admits (`Canon.Total`) and that BLAKE3 does not collide
(`Canon.CollisionFree`).

`Canon.reference` is a canonicalization to run examples with. It renders integers,
strings and containers as RFC 8785 does, refuses what RFC 8785 refuses, and uses the
bytes themselves as their own collision-free digest.
-/

namespace GymAct

/-- A Python `float` : a finite one by its exact value. -/
inductive PyFloat
  | finite (q : ℚ)
  | inf
  | negInf
  | nan
  deriving DecidableEq, Repr

/-- A value `json` can carry. -/
inductive Value
  | null
  | bool (b : Bool)
  | int (n : ℤ)
  | float (x : PyFloat)
  | str (s : String)
  | list (items : List Value)
  | dict (items : List (String × Value))
  deriving Repr, Inhabited

/-- The order of names is found by name where a set of them is sorted. -/
instance names_trans : IsTrans String (· ≤ ·) := inferInstance

instance names_antisymm : Std.Antisymm fun a b : String => a ≤ b := inferInstance

/-- `dict[str, Any]`. -/
abbrev Payload := List (String × Value)

namespace Value

mutual

/-- Structural equality is decidable. -/
def decEq : (a b : Value) → Decidable (a = b)
  | .null, .null => isTrue rfl
  | .bool a, .bool b => decidable_of_iff (a = b) (by simp)
  | .int a, .int b => decidable_of_iff (a = b) (by simp)
  | .float a, .float b => decidable_of_iff (a = b) (by simp)
  | .str a, .str b => decidable_of_iff (a = b) (by simp)
  | .list a, .list b =>
    match decEqList a b with
    | isTrue h => isTrue (by rw [h])
    | isFalse h => isFalse fun e => h (Value.list.inj e)
  | .dict a, .dict b =>
    match decEqItems a b with
    | isTrue h => isTrue (by rw [h])
    | isFalse h => isFalse fun e => h (Value.dict.inj e)
  | .null, .bool _ | .null, .int _ | .null, .float _ | .null, .str _ | .null, .list _
  | .null, .dict _ | .bool _, .null | .bool _, .int _ | .bool _, .float _ | .bool _, .str _
  | .bool _, .list _ | .bool _, .dict _ | .int _, .null | .int _, .bool _ | .int _, .float _
  | .int _, .str _ | .int _, .list _ | .int _, .dict _ | .float _, .null | .float _, .bool _
  | .float _, .int _ | .float _, .str _ | .float _, .list _ | .float _, .dict _ | .str _, .null
  | .str _, .bool _ | .str _, .int _ | .str _, .float _ | .str _, .list _ | .str _, .dict _
  | .list _, .null | .list _, .bool _ | .list _, .int _ | .list _, .float _ | .list _, .str _
  | .list _, .dict _ | .dict _, .null | .dict _, .bool _ | .dict _, .int _ | .dict _, .float _
  | .dict _, .str _ | .dict _, .list _ => isFalse nofun

def decEqList : (a b : List Value) → Decidable (a = b)
  | [], [] => isTrue rfl
  | [], _ :: _ | _ :: _, [] => isFalse nofun
  | a :: as, b :: bs =>
    match decEq a b, decEqList as bs with
    | isTrue h, isTrue hs => isTrue (by rw [h, hs])
    | isFalse h, _ => isFalse fun e => h (List.cons.inj e).1
    | _, isFalse hs => isFalse fun e => hs (List.cons.inj e).2

def decEqItems : (a b : List (String × Value)) → Decidable (a = b)
  | [], [] => isTrue rfl
  | [], _ :: _ | _ :: _, [] => isFalse nofun
  | (k, a) :: as, (l, b) :: bs =>
    match (inferInstance : Decidable (k = l)), decEq a b, decEqItems as bs with
    | isTrue hk, isTrue h, isTrue hs => isTrue (by rw [hk, h, hs])
    | isFalse hk, _, _ => isFalse fun e => hk (Prod.mk.inj (List.cons.inj e).1).1
    | _, isFalse h, _ => isFalse fun e => h (Prod.mk.inj (List.cons.inj e).1).2
    | _, _, isFalse hs => isFalse fun e => hs (List.cons.inj e).2

end

instance : DecidableEq Value := decEq

/-- The number a value is : booleans are numbers. -/
def number : Value → Option PyFloat
  | .bool b => some (.finite (if b then 1 else 0))
  | .int n => some (.finite n)
  | .float x => some x
  | _ => none

mutual

/-- `==` : numbers by their value, dicts whatever the order of their keys. -/
def pyEq : Value → Value → Bool
  | .null, .null => true
  | .str a, .str b => a == b
  | .list as, .list bs => pyEqList as bs
  | .dict as, .dict bs => as.length == bs.length && pyEqItems as bs
  | a, b =>
    match a.number, b.number with
    | some .nan, _ | _, some .nan => false
    | some x, some y => x == y
    | _, _ => false

def pyEqList : List Value → List Value → Bool
  | [], [] => true
  | a :: as, b :: bs => a.pyEq b && pyEqList as bs
  | _, _ => false

def pyEqItems : List (String × Value) → List (String × Value) → Bool
  | [], _ => true
  | (k, a) :: as, bs =>
    (match bs.lookup k with
    | some b => a.pyEq b
    | none => false) && pyEqItems as bs

end

/-- An optional string as a value. -/
def ofOption : Option String → Value
  | none => .null
  | some s => .str s

/-- An optional boolean as a value. -/
def ofOptionBool : Option Bool → Value
  | none => .null
  | some b => .bool b

/-- A sequence of strings as a value. -/
def ofStrings (xs : List String) : Value := .list (xs.map .str)

mutual

/-- What RFC 8785 admits : integers a double represents exactly, finite floats, and
containers of such. -/
def isCanonical : Value → Bool
  | .null | .bool _ | .str _ => true
  | .int n => decide (-(2 ^ 53 - 1) ≤ n ∧ n ≤ 2 ^ 53 - 1)
  | .float (.finite _) => true
  | .float _ => false
  | .list items => isCanonicalList items
  | .dict items => isCanonicalItems items

def isCanonicalList : List Value → Bool
  | [] => true
  | v :: vs => v.isCanonical && isCanonicalList vs

def isCanonicalItems : List (String × Value) → Bool
  | [] => true
  | (_, v) :: vs => v.isCanonical && isCanonicalItems vs

end

@[simp] theorem isCanonical_null : isCanonical .null = true := by simp [isCanonical]

@[simp] theorem isCanonical_bool (b : Bool) : isCanonical (.bool b) = true := by
  simp [isCanonical]

@[simp] theorem isCanonical_str (s : String) : isCanonical (.str s) = true := by
  simp [isCanonical]

@[simp] theorem isCanonicalItems_nil : isCanonicalItems [] = true := by simp [isCanonicalItems]

@[simp] theorem isCanonicalItems_cons (k : String) (v : Value) (vs : List (String × Value)) :
    isCanonicalItems ((k, v) :: vs) = (v.isCanonical && isCanonicalItems vs) := by
  simp [isCanonicalItems]

@[simp] theorem isCanonical_dict (items : List (String × Value)) :
    isCanonical (.dict items) = isCanonicalItems items := by
  simp [isCanonical]

@[simp] theorem isCanonical_ofOption (o : Option String) : (ofOption o).isCanonical = true := by
  cases o <;> simp [ofOption]

@[simp] theorem isCanonical_ofOptionBool (o : Option Bool) :
    (ofOptionBool o).isCanonical = true := by
  cases o <;> simp [ofOptionBool]

theorem isCanonical_list_iff (items : List Value) :
    isCanonical (.list items) = true ↔ ∀ v ∈ items, v.isCanonical = true := by
  have h : ∀ items, isCanonicalList items = true ↔ ∀ v ∈ items, v.isCanonical = true := by
    intro items
    induction items with
    | nil => simp [isCanonicalList]
    | cons v vs ih => simp [isCanonicalList, ih]
  simpa [isCanonical] using h items

@[simp] theorem isCanonical_ofStrings (xs : List String) :
    (ofStrings xs).isCanonical = true := by
  simp [ofStrings, isCanonical_list_iff]

end Value

/-! ## Texts and dictionaries -/

/-- `str.isspace`. -/
def isSpace (c : Char) : Bool :=
  let n := c.toNat
  (9 ≤ n && n ≤ 13) || (28 ≤ n && n ≤ 32) || n = 0x85 || n = 0xa0 || n = 0x1680 ||
    (0x2000 ≤ n && n ≤ 0x200a) || n = 0x2028 || n = 0x2029 || n = 0x202f || n = 0x205f || n = 0x3000

/-- `not s.strip()`. -/
def isBlank (s : String) : Bool := s.toList.all isSpace

/-- `d[key] = value`. -/
def Payload.set (d : Payload) (key : String) (value : Value) : Payload :=
  if d.any fun item => item.1 = key then
    d.map fun item => if item.1 = key then (key, value) else item
  else d ++ [(key, value)]

/-- `d.update(other)`. -/
def Payload.update (d other : Payload) : Payload :=
  other.foldl (fun d item => d.set item.1 item.2) d

/-! ## Canonical bytes and digests -/

/-- Bytes of a canonical encoding. -/
abbrev Bytes := List UInt8

/-- An exception by the name of its class and its text. -/
structure PyError where
  type : String
  message : String
  deriving DecidableEq, Repr

/-- The packages `rfc8785` and `blake3`. -/
structure Canon where
  /-- `rfc8785.dumps`; the error is a `CanonicalizationError` or a subclass of it. -/
  dumps : Value → Except PyError Bytes
  /-- `blake3(data).hexdigest()`. -/
  blake3 : Bytes → String

namespace Canon

variable (C : Canon)

/-- `canonical_bytes` of `evidence.py`. -/
def canonicalBytes (v : Value) : Except PyError Bytes := C.dumps v

/-- `digest` of `evidence.py`. -/
def digest (v : Value) : Except PyError String := (C.canonicalBytes v).map C.blake3

/-- Canonicalization succeeds on what RFC 8785 admits. -/
def Total : Prop := ∀ v : Value, v.isCanonical = true → ∃ b, C.dumps v = .ok b

/-- Canonicalization succeeds on what RFC 8785 admits and on nothing else. -/
def Exact : Prop := ∀ v : Value, (∃ b, C.dumps v = .ok b) ↔ v.isCanonical = true

/-- The digest of a dict is not the empty string. -/
def NamesDicts : Prop := ∀ items d, C.digest (.dict items) = .ok d → d ≠ ""

/-- Two byte strings with one BLAKE3 digest are equal. -/
def CollisionFree : Prop := Function.Injective C.blake3

variable {C}

theorem Total.digest (h : C.Total) {v : Value} (hv : v.isCanonical = true) :
    ∃ d, C.digest v = .ok d := by
  obtain ⟨b, hb⟩ := h v hv
  exact ⟨C.blake3 b, by simp [Canon.digest, canonicalBytes, hb, Except.map]⟩

theorem Exact.total (h : C.Exact) : C.Total := fun v hv => (h v).mpr hv

theorem CollisionFree.bytes_eq (h : C.CollisionFree) {v w : Value} {d : String}
    (hv : C.digest v = .ok d) (hw : C.digest w = .ok d) :
    C.canonicalBytes v = C.canonicalBytes w := by
  unfold Canon.digest at hv hw
  cases hbv : C.canonicalBytes v with
  | error e => simp [hbv, Except.map] at hv
  | ok b =>
    cases hbw : C.canonicalBytes w with
    | error e => simp [hbw, Except.map] at hw
    | ok b' =>
      rw [hbv] at hv
      rw [hbw] at hw
      have : C.blake3 b = C.blake3 b' := (Except.ok.inj hv).trans (Except.ok.inj hw).symm
      rw [h this]

theorem digest_congr {v w : Value} (h : C.canonicalBytes v = C.canonicalBytes w) :
    C.digest v = C.digest w := by
  unfold Canon.digest
  rw [h]

end Canon

/-! ## A canonicalization to run -/

/-- A JSON string. -/
def jsonString (s : String) : String :=
  "\"" ++ String.join (s.toList.map fun c =>
    if c = '"' then "\\\"" else if c = '\\' then "\\\\" else c.toString) ++ "\""

namespace Value

mutual

/-- The canonical text of a value : keys in order, no blanks. A float that is not an
integer is rendered as a fraction, which RFC 8785 does not do. -/
def render : Value → Except PyError String
  | .null => .ok "null"
  | .bool b => .ok (if b then "true" else "false")
  | .int n =>
    if -(2 ^ 53 - 1) ≤ n ∧ n ≤ 2 ^ 53 - 1 then .ok (toString n)
    else .error ⟨"IntegerDomainError", "integer outside the domain"⟩
  | .float (.finite q) =>
    .ok (if q.den = 1 then toString q.num else toString q.num ++ "/" ++ toString q.den)
  | .float _ => .error ⟨"FloatDomainError", "float outside the domain"⟩
  | .str s => .ok (jsonString s)
  | .list items => (renderList items).map fun ts => "[" ++ String.intercalate "," ts ++ "]"
  | .dict items => (renderItems items).map fun ts =>
      "\x7b" ++ String.intercalate ","
        ((ts.insertionSort fun a b => a.1 ≤ b.1).map fun t => jsonString t.1 ++ ":" ++ t.2) ++
      "\x7d"

def renderList : List Value → Except PyError (List String)
  | [] => .ok []
  | v :: vs =>
    match v.render, renderList vs with
    | .ok t, .ok ts => .ok (t :: ts)
    | .error e, _ => .error e
    | _, .error e => .error e

def renderItems : List (String × Value) → Except PyError (List (String × String))
  | [] => .ok []
  | (k, v) :: vs =>
    match v.render, renderItems vs with
    | .ok t, .ok ts => .ok ((k, t) :: ts)
    | .error e, _ => .error e
    | _, .error e => .error e

end

mutual

theorem render_ok : ∀ {v : Value}, v.isCanonical = true → ∃ t, v.render = .ok t
  | .null, _ | .bool _, _ | .str _, _ | .float (.finite _), _ => by simp [render]
  | .int n, h => by
    have h : -(2 ^ 53 - 1) ≤ n ∧ n ≤ 2 ^ 53 - 1 := by simpa [isCanonical] using h
    exact ⟨toString n, by rw [render, if_pos h]⟩
  | .float .inf, h | .float .negInf, h | .float .nan, h => by simp [isCanonical] at h
  | .list items, h => by
    obtain ⟨ts, hts⟩ := renderList_ok (by simpa [isCanonical] using h)
    exact ⟨_, by rw [render, hts]; rfl⟩
  | .dict items, h => by
    obtain ⟨ts, hts⟩ := renderItems_ok (by simpa [isCanonical] using h)
    exact ⟨_, by rw [render, hts]; rfl⟩

theorem renderList_ok : ∀ {items : List Value}, isCanonicalList items = true →
    ∃ ts, renderList items = .ok ts
  | [], _ => ⟨[], by rw [renderList]⟩
  | v :: vs, h => by
    have h : v.isCanonical = true ∧ isCanonicalList vs = true := by
      simpa [isCanonicalList] using h
    obtain ⟨t, ht⟩ := render_ok h.1
    obtain ⟨ts, hts⟩ := renderList_ok h.2
    exact ⟨t :: ts, by rw [renderList, ht, hts]⟩

theorem renderItems_ok : ∀ {items : List (String × Value)}, isCanonicalItems items = true →
    ∃ ts, renderItems items = .ok ts
  | [], _ => ⟨[], by rw [renderItems]⟩
  | (k, v) :: vs, h => by
    have h : v.isCanonical = true ∧ isCanonicalItems vs = true := by simpa using h
    obtain ⟨t, ht⟩ := render_ok h.1
    obtain ⟨ts, hts⟩ := renderItems_ok h.2
    exact ⟨(k, t) :: ts, by rw [renderItems, ht, hts]⟩

end

mutual

theorem isCanonical_of_render :
    ∀ {v : Value} {t : String}, v.render = .ok t → v.isCanonical = true
  | .null, _, _ | .bool _, _, _ | .str _, _, _ | .float (.finite _), _, _ => by simp [isCanonical]
  | .int n, t, h => by
    rw [render] at h
    split at h
    case isTrue hn => simpa [isCanonical] using hn
    case isFalse => cases h
  | .float .inf, _, h | .float .negInf, _, h | .float .nan, _, h => by simp [render] at h
  | .list items, t, h => by
    rw [render] at h
    cases hi : renderList items with
    | error e => simp [hi, Except.map] at h
    | ok ts => simpa [isCanonical] using isCanonicalList_of_render hi
  | .dict items, t, h => by
    rw [render] at h
    cases hi : renderItems items with
    | error e => simp [hi, Except.map] at h
    | ok ts => simpa [isCanonical] using isCanonicalItems_of_render hi

theorem isCanonicalList_of_render :
    ∀ {items : List Value} {ts : List String}, renderList items = .ok ts →
      isCanonicalList items = true
  | [], _, _ => by simp [isCanonicalList]
  | v :: vs, ts, h => by
    rw [renderList] at h
    cases hv : v.render with
    | error e => simp [hv] at h
    | ok t =>
      cases hvs : renderList vs with
      | error e => simp [hv, hvs] at h
      | ok ts' => simp [isCanonicalList, isCanonical_of_render hv, isCanonicalList_of_render hvs]

theorem isCanonicalItems_of_render :
    ∀ {items : List (String × Value)} {ts : List (String × String)}, renderItems items = .ok ts →
      isCanonicalItems items = true
  | [], _, _ => by simp
  | (k, v) :: vs, ts, h => by
    rw [renderItems] at h
    cases hv : v.render with
    | error e => simp [hv] at h
    | ok t =>
      cases hvs : renderItems vs with
      | error e => simp [hv, hvs] at h
      | ok ts' => simp [isCanonical_of_render hv, isCanonicalItems_of_render hvs]

end

end Value

namespace Canon

/-- Canonical text in UTF-8, and the bytes themselves, one character each, as digest. -/
def reference : Canon where
  dumps v := v.render.map fun t => t.toUTF8.data.toList
  blake3 b := String.ofList (b.map fun x => Char.ofNat x.toNat)

theorem reference_total : reference.Total := fun v hv => by
  obtain ⟨t, ht⟩ := Value.render_ok hv
  exact ⟨t.toUTF8.data.toList, by simp [reference, ht, Except.map]⟩

theorem reference_exact : reference.Exact := fun v => by
  refine ⟨fun ⟨b, hb⟩ => ?_, reference_total v⟩
  cases hv : v.render with
  | error e => simp [reference, hv, Except.map] at hb
  | ok t => exact Value.isCanonical_of_render hv

theorem toNat_ofNat_of_lt {n : ℕ} (h : n < 256) : (Char.ofNat n).toNat = n := by
  have hv : n.isValidChar := Or.inl (by omega)
  rw [Char.ofNat, dif_pos hv]
  rfl

theorem reference_collisionFree : reference.CollisionFree := by
  intro a b h
  have h := String.ofList_injective h
  refine List.map_injective_iff.mpr (fun x y hxy => ?_) h
  have hx : x.toNat < 256 := x.toNat_lt
  have hy : y.toNat < 256 := y.toNat_lt
  have hxy := congrArg Char.toNat hxy
  rw [toNat_ofNat_of_lt hx, toNat_ofNat_of_lt hy] at hxy
  exact UInt8.toNat_inj.mp hxy

theorem reference_namesDicts : reference.NamesDicts := by
  intro items d h hd
  subst hd
  have hnil : ∀ s : String, s.toUTF8.data.toList = [] → s.toByteArray.size = 0 := fun s hs => by
    have hempty : s.toUTF8 = ByteArray.empty := ByteArray.ext (Array.toList_inj.mp hs)
    rw [← String.toUTF8_eq_toByteArray, hempty]
    rfl
  simp only [digest, canonicalBytes, reference, Value.render] at h
  cases hi : Value.renderItems items with
  | error e => simp [hi, Except.map] at h
  | ok ts =>
    have h := hnil _ (by simpa only [hi, Except.map, Except.ok.injEq, String.ofList_eq_empty_iff,
      List.map_eq_nil_iff] using h)
    simp at h

-- Only the kernel evaluates it.
attribute [irreducible] reference

end Canon

end GymAct
