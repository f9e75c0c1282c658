import GymAct.Fallible
import GymAct.Models
import GymAct.PrefixCode
import GymAct.Value

/-!
# Compiled recipes

`compileout.py` : a candidate that was verified is compiled, with the receipts of that, under the
identity of the problem (`compileRecipe`), and is used again under exactly that identity
(`admitCompiledRecipe`). A recipe is named by the digest of what it is made of.
-/

namespace GymAct

namespace Compileout

structure RecipeIdentity where
  problemIdentity : String
  environmentIdentity : String
  authorityClass : String
  policyRevision : String
  verifierRef : String
  actionRef : String
  inputContractDigest : String
  filled : ∀ field ∈ [problemIdentity, environmentIdentity, authorityClass, policyRevision,
    verifierRef, actionRef, inputContractDigest], field ≠ ""
  deriving DecidableEq, Repr

/-- `RecipeIdentity(…)`. -/
def RecipeIdentity.construct (problemIdentity environmentIdentity authorityClass policyRevision
    verifierRef actionRef inputContractDigest : String) : Except PyError RecipeIdentity :=
  if h : ∀ field ∈ [problemIdentity, environmentIdentity, authorityClass, policyRevision,
      verifierRef, actionRef, inputContractDigest], field ≠ "" then
    .ok ⟨problemIdentity, environmentIdentity, authorityClass, policyRevision, verifierRef,
      actionRef, inputContractDigest, h⟩
  else .error ⟨"ValidationError", "RecipeIdentity"⟩

def RecipeIdentity.modelDump (i : RecipeIdentity) : Value :=
  .dict [("problem_identity", .str i.problemIdentity),
    ("environment_identity", .str i.environmentIdentity),
    ("authority_class", .str i.authorityClass), ("policy_revision", .str i.policyRevision),
    ("verifier_ref", .str i.verifierRef), ("action_ref", .str i.actionRef),
    ("input_contract_digest", .str i.inputContractDigest)]

/-- What a recipe is the digest of. -/
structure RecipePayload where
  identity : RecipeIdentity
  candidateRef : String
  sourceReceiptRefs : List String
  deriving DecidableEq, Repr

def RecipePayload.modelDump (p : RecipePayload) : Value :=
  .dict [("identity", p.identity.modelDump), ("candidate_ref", .str p.candidateRef),
    ("source_receipt_refs", .ofStrings p.sourceReceiptRefs)]

/-- A candidate, with the identity it was compiled under. -/
structure CompiledRecipe (C : Canon) extends RecipePayload where
  recipeDigest : String
  standing : Standing := .structural
  filled : candidateRef ≠ "" ∧ recipeDigest ≠ ""
  /-- `COMPILE_OUT_REQUIRES_SOURCE_RECEIPTS`. -/
  witnessed : sourceReceiptRefs ≠ []
  /-- `COMPILED_RECIPE_DIGEST_MISMATCH`. -/
  verified : C.digest toRecipePayload.modelDump = .ok recipeDigest

/-- `CompiledRecipe(…)`. -/
def CompiledRecipe.construct (C : Canon) (payload : RecipePayload) (recipeDigest : String) :
    Except PyError (CompiledRecipe C) :=
  if hfilled : payload.candidateRef ≠ "" ∧ recipeDigest ≠ "" then
    if hwitnessed : payload.sourceReceiptRefs ≠ [] then
      match hdigest : C.digest payload.modelDump with
      | .error e => .error e
      | .ok d =>
        if hd : recipeDigest = d then
          .ok { payload with
            recipeDigest
            filled := hfilled
            witnessed := hwitnessed
            verified := hd ▸ hdigest }
        else .error ⟨"ValidationError", "COMPILED_RECIPE_DIGEST_MISMATCH"⟩
    else .error ⟨"ValidationError", "COMPILE_OUT_REQUIRES_SOURCE_RECEIPTS"⟩
  else .error ⟨"ValidationError", "CompiledRecipe"⟩

structure RecipeAdmission where
  admitted : Bool
  modelRequired : Bool
  candidateRef : Option String := none
  standing : Standing
  reason : String
  deriving DecidableEq, Repr

section Compile

variable (C : Canon)

/-- `compile_recipe`. -/
def compileRecipe (identity : RecipeIdentity) (candidateRef : String)
    (sourceReceiptRefs : List String) : Except PyError (CompiledRecipe C) :=
  if sourceReceiptRefs = [] then
    .error ⟨"ValueError", "COMPILE_OUT_REQUIRES_SOURCE_RECEIPTS"⟩
  else do
    let payload : RecipePayload := ⟨identity, candidateRef, sourceReceiptRefs⟩
    let recipeDigest ← C.digest payload.modelDump
    CompiledRecipe.construct C payload recipeDigest

variable {C}

/-- `admit_compiled_recipe`. -/
def admitCompiledRecipe (recipe : CompiledRecipe C) (current : RecipeIdentity) : RecipeAdmission :=
  if recipe.identity ≠ current then
    { admitted := false, modelRequired := true, standing := .stale,
      reason := "COMPILED_RECIPE_IDENTITY_DRIFT" }
  else if recipe.standing ≠ .structural ∧ recipe.standing ≠ .alive then
    { admitted := false, modelRequired := true, standing := .partialAlive,
      reason := "COMPILED_RECIPE_NOT_ADMISSIBLE" }
  else
    { admitted := true, modelRequired := false, candidateRef := some recipe.candidateRef,
      standing := .candidate, reason := "HOT_RECIPE_CANDIDATE_ADMITTED_AUTHORITY_STILL_REQUIRED" }

/-- A recipe is admitted under its own identity only. -/
theorem admitted_iff {recipe : CompiledRecipe C} {current : RecipeIdentity}
    (hstanding : recipe.standing = .structural) :
    (admitCompiledRecipe recipe current).admitted = true ↔ recipe.identity = current := by
  unfold admitCompiledRecipe
  split_ifs with hidentity hunfit
  · exact iff_of_false (by simp) hidentity
  · exact absurd hstanding hunfit.1
  · exact iff_of_true rfl (not_not.mp hidentity)

theorem construct_eq_ok {payload : RecipePayload} {recipeDigest : String}
    {recipe : CompiledRecipe C}
    (h : CompiledRecipe.construct C payload recipeDigest = .ok recipe) :
    recipe.toRecipePayload = payload ∧ recipe.standing = .structural := by
  unfold CompiledRecipe.construct at h
  split_ifs at h
  split at h
  · cases h
  · split_ifs at h
    obtain rfl := Except.ok.inj h
    exact ⟨rfl, rfl⟩

theorem construct_ok {payload : RecipePayload} {recipeDigest : String}
    (hfilled : payload.candidateRef ≠ "" ∧ recipeDigest ≠ "") (hrefs : payload.sourceReceiptRefs ≠ [])
    (hdigest : C.digest payload.modelDump = .ok recipeDigest) :
    ∃ recipe, CompiledRecipe.construct C payload recipeDigest = .ok recipe := by
  unfold CompiledRecipe.construct
  rw [dif_pos hfilled, dif_pos hrefs]
  split
  · next e he =>
    rw [hdigest] at he
    cases he
  · next d hd =>
    have heq : recipeDigest = d := Except.ok.inj (hdigest.symm.trans hd)
    rw [dif_pos heq]
    exact ⟨_, rfl⟩

variable {identity : RecipeIdentity} {candidateRef : String} {refs : List String}

/-- What is compiled. -/
theorem compileRecipe_eq_ok {recipe : CompiledRecipe C}
    (h : compileRecipe C identity candidateRef refs = .ok recipe) :
    recipe.toRecipePayload = ⟨identity, candidateRef, refs⟩ ∧ recipe.standing = .structural := by
  unfold compileRecipe at h
  split_ifs at h
  obtain ⟨d, -, h⟩ := Fallible.bind_eq_ok.mp h
  exact construct_eq_ok h

/-- A candidate with receipts is compiled, where digests have names. -/
theorem compileRecipe_ok (hC : C.Total) (hN : C.NamesDicts) (hcandidate : candidateRef ≠ "")
    (hrefs : refs ≠ []) : ∃ recipe, compileRecipe C identity candidateRef refs = .ok recipe := by
  have hcanonical : (RecipePayload.modelDump ⟨identity, candidateRef, refs⟩).isCanonical = true := by
    simp [RecipePayload.modelDump, RecipeIdentity.modelDump]
  obtain ⟨d, hd⟩ := hC.digest hcanonical
  unfold compileRecipe
  rw [if_neg hrefs]
  dsimp only
  rw [hd]
  exact construct_ok ⟨hcandidate, hN _ _ hd⟩ hrefs hd

/-- Canonicalization tells the payloads of recipes apart. -/
def SeparatesRecipes (C : Canon) : Prop :=
  ∀ p q : RecipePayload, C.canonicalBytes p.modelDump = C.canonicalBytes q.modelDump → p = q

/-- Recipes of one digest are of one payload. -/
theorem payload_eq_of_digest (hF : C.CollisionFree) (hS : SeparatesRecipes C)
    {recipe recipe' : CompiledRecipe C} (h : recipe.recipeDigest = recipe'.recipeDigest) :
    recipe.toRecipePayload = recipe'.toRecipePayload :=
  hS _ _ (hF.bytes_eq recipe.verified (h ▸ recipe'.verified))

end Compile

/-! ## The reference canonicalization tells payloads apart -/

section Reference

open PrefixCode

/-- A character within a JSON string. -/
def escaped (c : Char) : List Char :=
  if c = '"' then ['\\', '"'] else if c = '\\' then ['\\', '\\'] else [c]

/-- A JSON string, as characters. -/
def jsonCode (s : String) : List Char := ['"'] ++ (s.toList.flatMap escaped ++ ['"'])

theorem jsonString_toList (s : String) : (jsonString s).toList = jsonCode s := by
  have hescaped : ∀ c, (if c = '"' then "\\\"" else if c = '\\' then "\\\\" else c.toString).toList =
      escaped c := by
    intro c
    unfold escaped
    split_ifs <;> simp
  simp only [jsonString, jsonCode, String.toList_append, String.toList_join, List.flatMap_map,
    hescaped, List.append_assoc]
  rfl

theorem isPrefixCode_escaped : IsPrefixCode escaped := by
  intro a b rest rest' heq
  unfold escaped at heq
  split_ifs at heq <;> grind

theorem isPrefixCode_jsonCode : IsPrefixCode jsonCode := by
  have hmany : IsPrefixCode fun l : List Char => l.flatMap escaped ++ ['"'] := by
    refine isPrefixCode_escaped.many fun c rest => ?_
    unfold escaped
    split_ifs with hquote
    · simp
    · simp
    · simpa using hquote
  exact (hmany.comp fun _ _ => String.toList_injective).after ['"']

/-- The items of a JSON list of strings and what closes it. -/
def itemsCode : List String → List Char
  | [] => [']']
  | s :: l => jsonCode s ++ (l.flatMap (fun s => [','] ++ jsonCode s) ++ [']'])

theorem isPrefixCode_itemsCode : IsPrefixCode itemsCode := by
  have hrest : IsPrefixCode fun l : List String =>
      l.flatMap (fun s => [','] ++ jsonCode s) ++ [']'] :=
    (isPrefixCode_jsonCode.after [',']).many fun _ _ => by simp
  intro l l' rest rest' heq
  rcases l with - | ⟨s, l⟩ <;> rcases l' with - | ⟨s', l'⟩
  · exact ⟨rfl, (List.cons.inj heq).2⟩
  · cases heq
  · cases heq
  · obtain ⟨hitems, hend⟩ := (isPrefixCode_jsonCode.pair hrest) (s, l) (s', l') rest rest' heq
    exact ⟨by rw [(Prod.mk.inj hitems).1, (Prod.mk.inj hitems).2], hend⟩

theorem items_toList (l : List String) :
    (",".intercalate (l.map jsonString)).toList ++ [']'] = itemsCode l := by
  rw [String.toList_intercalate, List.map_map]
  have hitem : (String.toList ∘ jsonString) = jsonCode := funext jsonString_toList
  rw [hitem]
  rcases l with - | ⟨s, l⟩
  · rfl
  · induction l generalizing s with
    | nil => simp [itemsCode, List.intercalate]
    | cons s' l ih =>
      have h := ih s'
      simp only [List.map_cons, itemsCode] at h ⊢
      rw [List.intercalate_cons_cons, List.append_assoc, h]
      simp

/-- The fields of a payload, in the order of their names. -/
def RecipePayload.fields (p : RecipePayload) :
    String × String × String × String × String × String × String × String × List String :=
  (p.candidateRef, p.identity.actionRef, p.identity.authorityClass,
    p.identity.environmentIdentity, p.identity.inputContractDigest, p.identity.policyRevision,
    p.identity.problemIdentity, p.identity.verifierRef, p.sourceReceiptRefs)

theorem fields_injective : Function.Injective RecipePayload.fields := by
  rintro ⟨⟨_, _, _, _, _, _, _, _⟩, _, _⟩ ⟨⟨_, _, _, _, _, _, _, _⟩, _, _⟩ h
  simp only [RecipePayload.fields, Prod.mk.injEq] at h
  obtain ⟨rfl, rfl, rfl, rfl, rfl, rfl, rfl, rfl, rfl⟩ := h
  rfl

/-- A member of an object, after the text that leads to it. -/
def fieldCode (lead name : String) (s : String) : List Char :=
  lead.toList ++ (jsonCode name ++ (":".toList ++ jsonCode s))

theorem isPrefixCode_fieldCode (lead name : String) : IsPrefixCode (fieldCode lead name) :=
  ((isPrefixCode_jsonCode.after _).after _).after _

/-- The canonical text of a payload with these fields. -/
def fieldsCode (fields : String × String × String × String × String × String × String × String ×
    List String) : List Char :=
  fieldCode "\x7b" "candidate_ref" fields.1 ++
    ((",".toList ++ (jsonCode "identity" ++ (":".toList ++
      fieldCode "\x7b" "action_ref" fields.2.1))) ++
    (fieldCode "," "authority_class" fields.2.2.1 ++
    (fieldCode "," "environment_identity" fields.2.2.2.1 ++
    (fieldCode "," "input_contract_digest" fields.2.2.2.2.1 ++
    (fieldCode "," "policy_revision" fields.2.2.2.2.2.1 ++
    (fieldCode "," "problem_identity" fields.2.2.2.2.2.2.1 ++
    (fieldCode "," "verifier_ref" fields.2.2.2.2.2.2.2.1 ++
    ("\x7d".toList ++ (",".toList ++ (jsonCode "source_receipt_refs" ++ (":".toList ++
      ("[".toList ++ itemsCode fields.2.2.2.2.2.2.2.2))))))))))))

theorem isPrefixCode_fieldsCode : IsPrefixCode fieldsCode :=
  (isPrefixCode_fieldCode _ _).pair
    (((((isPrefixCode_fieldCode _ _).after _).after _).after _).pair
      ((isPrefixCode_fieldCode _ _).pair ((isPrefixCode_fieldCode _ _).pair
        ((isPrefixCode_fieldCode _ _).pair ((isPrefixCode_fieldCode _ _).pair
          ((isPrefixCode_fieldCode _ _).pair ((isPrefixCode_fieldCode _ _).pair
            (((((isPrefixCode_itemsCode.after _).after _).after _).after _).after _))))))))

theorem renderList_strings (l : List String) :
    Value.renderList (l.map Value.str) = .ok (l.map jsonString) := by
  induction l with
  | nil => rfl
  | cons s l ih => simp [Value.renderList, Value.render, ih]

theorem render_identity (i : RecipeIdentity) : i.modelDump.render = .ok ("\x7b" ++ ",".intercalate
    [jsonString "action_ref" ++ ":" ++ jsonString i.actionRef,
      jsonString "authority_class" ++ ":" ++ jsonString i.authorityClass,
      jsonString "environment_identity" ++ ":" ++ jsonString i.environmentIdentity,
      jsonString "input_contract_digest" ++ ":" ++ jsonString i.inputContractDigest,
      jsonString "policy_revision" ++ ":" ++ jsonString i.policyRevision,
      jsonString "problem_identity" ++ ":" ++ jsonString i.problemIdentity,
      jsonString "verifier_ref" ++ ":" ++ jsonString i.verifierRef] ++ "\x7d") := by
  simp [RecipeIdentity.modelDump, Value.render, Value.renderItems, List.insertionSort,
    List.orderedInsert, Except.map]

theorem render_payload (p : RecipePayload) : p.modelDump.render = .ok ("\x7b" ++ ",".intercalate
    [jsonString "candidate_ref" ++ ":" ++ jsonString p.candidateRef,
      jsonString "identity" ++ ":" ++ ("\x7b" ++ ",".intercalate
        [jsonString "action_ref" ++ ":" ++ jsonString p.identity.actionRef,
          jsonString "authority_class" ++ ":" ++ jsonString p.identity.authorityClass,
          jsonString "environment_identity" ++ ":" ++ jsonString p.identity.environmentIdentity,
          jsonString "input_contract_digest" ++ ":" ++ jsonString p.identity.inputContractDigest,
          jsonString "policy_revision" ++ ":" ++ jsonString p.identity.policyRevision,
          jsonString "problem_identity" ++ ":" ++ jsonString p.identity.problemIdentity,
          jsonString "verifier_ref" ++ ":" ++ jsonString p.identity.verifierRef] ++ "\x7d"),
      jsonString "source_receipt_refs" ++ ":" ++
        ("[" ++ ",".intercalate (p.sourceReceiptRefs.map jsonString) ++ "]")] ++ "\x7d") := by
  have hrefs : Value.render (.ofStrings p.sourceReceiptRefs) =
      .ok ("[" ++ ",".intercalate (p.sourceReceiptRefs.map jsonString) ++ "]") := by
    simp [Value.ofStrings, Value.render, renderList_strings, Except.map]
  simp [RecipePayload.modelDump, Value.render, Value.renderItems, render_identity, hrefs,
    List.insertionSort, List.orderedInsert, Except.map]

/-- The canonical text of a payload is the code of its fields. -/
theorem render_toList (p : RecipePayload) {t : String} (h : p.modelDump.render = .ok t) :
    t.toList = fieldsCode p.fields ++ "\x7d".toList := by
  obtain rfl := Except.ok.inj ((render_payload p).symm.trans h)
  have hitems := items_toList p.sourceReceiptRefs
  have hclose : "]".toList = [']'] := rfl
  generalize ",".intercalate (p.sourceReceiptRefs.map jsonString) = items at hitems
  simp only [fieldsCode, RecipePayload.fields, fieldCode, ← hitems, String.toList_append,
    String.toList_intercalate, jsonString_toList, List.map_cons, List.map_nil,
    List.intercalate_cons_cons, List.intercalate_singleton, List.append_assoc, hclose]

theorem reference_separatesRecipes : SeparatesRecipes Canon.reference := by
  intro p q h
  obtain ⟨t, ht⟩ : ∃ t, p.modelDump.render = .ok t := ⟨_, render_payload p⟩
  obtain ⟨t', ht'⟩ : ∃ t, q.modelDump.render = .ok t := ⟨_, render_payload q⟩
  unfold Canon.canonicalBytes Canon.reference at h
  dsimp only at h
  rw [ht, ht'] at h
  have hbytes : t.toUTF8 = t'.toUTF8 := ByteArray.ext (Array.toList_inj.mp (Except.ok.inj h))
  have htext : t.toList = t'.toList := by rw [String.toByteArray_inj.mp hbytes]
  rw [render_toList p ht, render_toList q ht'] at htext
  exact fields_injective (isPrefixCode_fieldsCode _ _ _ _ htext).1

end Reference

end Compileout

end GymAct
