import OpenRupiv.Compiler.Sql
import OpenRupiv.Lib.Letters
import OpenRupiv.Js.Replace
import OpenRupiv.Spec.Facts

/-!
# One spelling of names

The compiler and the runtime convert names by the same two rules, in opposite orders.  The order
does not matter, so that the runtime uses the tables and columns that the compiler has checked; and
the names of a valid spec become SQL identifiers.
-/

namespace OpenRupiv.Runtime

open Js Spec
open Lib (isUpper_iff isLower_iff isDigit_iff)

private theorem splitWords_cons (c : Char) (cs : List Char) :
    splitWords (c :: cs) =
      c :: if wordBreak c cs then '_' :: splitWords cs else splitWords cs := by
  cases cs with
  | nil => simp [splitWords, wordBreak]
  | cons d rest =>
    rw [splitWords]
    simp only [wordBreak, List.head?_cons, Option.any_some]
    exact (apply_ite (List.cons c) _ _ _).symm

private theorem splitAcronyms_cons (c : Char) (cs : List Char) :
    splitAcronyms (c :: cs) =
      c :: if c.isUpper && startsWord cs then '_' :: splitAcronyms cs else splitAcronyms cs := by
  match cs with
  | [] | [d] => simp [splitAcronyms, startsWord]
  | d :: e :: rest =>
    rw [splitAcronyms]
    simp only [startsWord, Bool.and_assoc]
    exact (apply_ite (List.cons c) _ _ _).symm

private theorem head?_splitWords (cs : List Char) : (splitWords cs).head? = cs.head? := by
  cases cs with
  | nil => rfl
  | cons c cs => rw [splitWords_cons, List.head?_cons, List.head?_cons]

private theorem head?_splitAcronyms (cs : List Char) : (splitAcronyms cs).head? = cs.head? := by
  cases cs with
  | nil => rfl
  | cons c cs => rw [splitAcronyms_cons, List.head?_cons, List.head?_cons]

private theorem not_isUpper_of_wordBreak {c : Char} {cs : List Char} (h : wordBreak c cs = true) :
    c.isUpper = false := by
  simp only [wordBreak, Bool.and_eq_true, Bool.or_eq_true] at h
  by_contra hupper
  simp only [Bool.not_eq_false, isUpper_iff, isLower_iff, isDigit_iff] at hupper h
  omega

private theorem startsWord_splitWords (cs : List Char) : startsWord (splitWords cs) = startsWord cs := by
  match cs with
  | [] => rfl
  | [d] => simp [splitWords]
  | d :: e :: rest =>
    by_cases hbreak : wordBreak d (e :: rest) = true
    · rw [splitWords_cons, if_pos hbreak]
      simp [startsWord, not_isUpper_of_wordBreak hbreak]
    · rw [splitWords_cons, if_neg hbreak, splitWords_cons]
      rfl

private theorem wordBreak_splitAcronyms (c : Char) (cs : List Char) :
    wordBreak c (splitAcronyms cs) = wordBreak c cs := by
  rw [wordBreak, wordBreak, head?_splitAcronyms]

theorem splitAcronyms_splitWords (cs : List Char) :
    splitAcronyms (splitWords cs) = splitWords (splitAcronyms cs) := by
  induction cs with
  | nil => rfl
  | cons c cs ih =>
    rw [splitWords_cons, splitAcronyms_cons c cs]
    by_cases hword : wordBreak c cs = true
    · have hupper := not_isUpper_of_wordBreak hword
      rw [if_pos hword, splitAcronyms_cons, splitAcronyms_cons, hupper]
      simp only [Bool.false_and, Bool.false_eq_true, if_false]
      rw [splitWords_cons, wordBreak_splitAcronyms, if_pos hword, ih]
      simp [show Char.isUpper '_' = false by decide]
    · rw [if_neg hword, splitAcronyms_cons, startsWord_splitWords]
      by_cases hacronym : (c.isUpper && startsWord cs) = true
      · rw [if_pos hacronym, if_pos hacronym, splitWords_cons, splitWords_cons, ih]
        simp [wordBreak, show Char.isUpper '_' = false by decide,
          show Char.isLower '_' = false by decide, show Char.isDigit '_' = false by decide]
      · rw [if_neg hacronym, if_neg hacronym, splitWords_cons, wordBreak_splitAcronyms,
          if_neg hword, ih]

theorem splitWords_eq (cs : List Char) : splitWords cs = replaceAll wordPattern '_' cs := by
  rw [replaceAll_word]
  induction cs with
  | nil => rfl
  | cons c cs ih => rw [splitWords_cons, breakAt, ih]

theorem splitAcronyms_eq (cs : List Char) : splitAcronyms cs = replaceAll acronymPattern '_' cs := by
  rw [replaceAll_acronym]
  induction cs with
  | nil => rfl
  | cons c cs ih =>
    rw [splitAcronyms_cons, breakAt, ih]
    rfl

theorem snakeCase_eq_toSnakeCase (name : String) : Compiler.snakeCase name = toSnakeCase name := by
  rw [Compiler.snakeCase, toSnakeCase, splitAcronyms_splitWords]

theorem columnName_eq_columnFor (field : FieldDef) : Compiler.columnName field = columnFor field := by
  rw [Compiler.columnName, columnFor, snakeCase_eq_toSnakeCase]

private def identifierRest (c : Char) : Bool := c.isLower || c.isDigit || c == '_'

private theorem toLower_val {c : Char} (h : c.isUpper = true) :
    c.toLower.val.toNat = c.val.toNat + 32 := by
  have hbound : c.val.toNat ≤ 90 := (isUpper_iff.mp h).2
  have hval : c.toLower.val = c.val + ('a'.val - 'A'.val) := by
    change (if _ : c.val ≥ 'A'.val ∧ c.val ≤ 'Z'.val then _ else c : Char).val = _
    rw [dif_pos (decide_eq_true_eq.mp h)]
  rw [hval]
  simp only [Char.reduceVal, UInt32.reduceSub, UInt32.toNat_add, UInt32.reduceToNat, Nat.reducePow]
  omega

theorem toLower_of_not_isUpper {c : Char} (h : c.isUpper = false) : c.toLower = c := by
  change (if _ : c.val ≥ 'A'.val ∧ c.val ≤ 'Z'.val then _ else c) = c
  rw [dif_neg (decide_eq_false_iff_not.mp h)]

theorem isLower_toLower {c : Char} (h : isLetter c = true) : c.toLower.isLower = true := by
  cases hupper : c.isUpper with
  | true =>
    have hval := toLower_val hupper
    have hcode : c.toLower.toNat = c.toNat + 32 := hval
    rw [isUpper_iff] at hupper
    rw [isLower_iff, hcode]
    omega
  | false =>
    rw [toLower_of_not_isUpper hupper]
    simpa [isLetter, hupper] using h

private theorem identifierRest_toLower {c : Char} (h : (isAlphanumeric c || c == '_') = true) :
    identifierRest c.toLower = true := by
  by_cases hletter : isLetter c = true
  · simp [identifierRest, isLower_toLower hletter]
  · have hupper : c.isUpper = false := by
      by_contra hnot
      simp_all [isLetter]
    rw [toLower_of_not_isUpper hupper]
    simp only [isAlphanumeric, hletter, Bool.false_or, Bool.or_eq_true] at h
    simp only [identifierRest, Bool.or_eq_true]
    exact h.imp (fun hdigit => .inr hdigit) id

private theorem mem_splitWords {cs : List Char} {d : Char} (h : d ∈ splitWords cs) :
    d ∈ cs ∨ d = '_' := by
  induction cs with
  | nil => exact .inl h
  | cons c cs ih =>
    rw [splitWords_cons] at h
    split at h <;> simp only [List.mem_cons] at h ⊢ <;> tauto

private theorem mem_splitAcronyms {cs : List Char} {d : Char} (h : d ∈ splitAcronyms cs) :
    d ∈ cs ∨ d = '_' := by
  induction cs with
  | nil => exact .inl h
  | cons c cs ih =>
    rw [splitAcronyms_cons] at h
    split at h <;> simp only [List.mem_cons] at h ⊢ <;> tauto

/-- A name that starts with a letter and goes on with letters and digits. -/
def IsName (name : String) : Prop :=
  ∃ c rest, name.toList = c :: rest ∧ isLetter c = true ∧ ∀ d ∈ rest, isAlphanumeric d = true

theorem isName_of_isEntityName {name : String} (h : isEntityName name = true) : IsName name := by
  unfold isEntityName at h
  split at h
  · exact absurd h (by simp)
  · rename_i c rest hname
    simp only [Bool.and_eq_true, List.all_eq_true] at h
    exact ⟨c, rest, hname, by simp [isLetter, h.1], h.2⟩

theorem isName_of_isMemberName {name : String} (h : isMemberName name = true) : IsName name := by
  unfold isMemberName at h
  split at h
  · exact absurd h (by simp)
  · rename_i c rest hname
    simp only [Bool.and_eq_true, List.all_eq_true] at h
    exact ⟨c, rest, hname, by simp [isLetter, h.1], h.2⟩

private theorem toList_toSnakeCase {name : String} (h : IsName name) :
    ∃ c rest, (toSnakeCase name).toList = c :: rest ∧ c.isLower = true ∧
      ∀ d ∈ rest, identifierRest d = true := by
  obtain ⟨c, rest, hname, hc, hrest⟩ := h
  have hall : ∀ d ∈ splitAcronyms (splitWords name.toList), (isAlphanumeric d || d == '_') = true := by
    intro d hd
    rcases mem_splitAcronyms hd with hd | rfl
    · rcases mem_splitWords hd with hd | rfl
      · rw [hname] at hd
        rcases List.mem_cons.mp hd with rfl | hd
        · simp [isAlphanumeric, hc]
        · simp [hrest d hd]
      · rfl
    · rfl
  have hhead : (splitAcronyms (splitWords name.toList)).head? = some c := by
    rw [head?_splitAcronyms, head?_splitWords, hname, List.head?_cons]
  obtain ⟨tail, htail⟩ := List.head?_eq_some_iff.mp hhead
  rw [toSnakeCase, String.toList_ofList, htail]
  refine ⟨c.toLower, tail.map Char.toLower, rfl, isLower_toLower hc, ?_⟩
  intro d hd
  obtain ⟨e, he, rfl⟩ := List.mem_map.mp hd
  apply identifierRest_toLower
  apply hall e
  rw [htail]
  exact List.mem_cons_of_mem _ he

theorem isSqlIdentifier_toSnakeCase {name : String} (h : IsName name) :
    isSqlIdentifier (toSnakeCase name) = true := by
  obtain ⟨c, rest, hlist, hc, hrest⟩ := toList_toSnakeCase h
  simp only [isSqlIdentifier, hlist, hc, Bool.true_or, Bool.true_and, List.all_eq_true]
  exact hrest

theorem mem_entityApiSegment {name : String} (h : IsName name) {c : Char}
    (hc : c ∈ (Runtime.entityApiSegment name).toList) : c = '-' ∨ isLowerOrDigit c = true := by
  have hident := isSqlIdentifier_toSnakeCase h
  rw [Runtime.entityApiSegment, String.toList_ofList] at hc
  obtain ⟨d, hd, rfl⟩ := List.mem_map.mp hc
  unfold Runtime.isSqlIdentifier at hident
  split at hident
  · exact absurd hident (by simp)
  · rename_i first rest hlist
    rw [hlist] at hd
    simp only [Bool.and_eq_true, List.all_eq_true, Bool.or_eq_true, beq_iff_eq] at hident
    by_cases hunder : d = '_'
    · exact .inl (if_pos hunder)
    · right
      rw [if_neg hunder, isLowerOrDigit, Bool.or_eq_true]
      rcases List.mem_cons.mp hd with rfl | hd
      · exact .inl (hident.1.resolve_right hunder)
      · exact (hident.2 d hd).resolve_right hunder

theorem isSqlIdentifier_columnFor {field : FieldDef} (h : IsName field.name) :
    isSqlIdentifier (columnFor field) = true := by
  obtain ⟨c, rest, hlist, hc, hrest⟩ := toList_toSnakeCase h
  unfold columnFor
  dsimp only
  split
  · simp only [isSqlIdentifier, String.toList_append, hlist, List.cons_append, hc, Bool.true_or,
      Bool.true_and, List.all_eq_true, List.mem_append]
    have hid : "_id".toList.all (fun c => c.isLower || c.isDigit || c == '_') = true := by decide
    rintro d (hd | hd)
    · exact hrest d hd
    · simpa using List.all_eq_true.mp hid d hd
  · exact isSqlIdentifier_toSnakeCase h

/-- No hyphen comes from a name, so that the segment of a route determines the table. -/
theorem entityApiSegment_inj {name name' : String} (h : IsName name) (h' : IsName name')
    (heq : entityApiSegment name = entityApiSegment name') :
    entityTable name = entityTable name' := by
  have hback : ∀ {name : String}, IsName name →
      ((entityApiSegment name).toList.map fun c => if c = '-' then '_' else c) =
        (toSnakeCase name).toList := by
    intro name hname
    obtain ⟨c, rest, hlist, hc, hrest⟩ := toList_toSnakeCase hname
    rw [entityApiSegment, String.toList_ofList, List.map_map]
    apply (List.map_congr_left _).trans (List.map_id _)
    intro d hd
    have hd' : identifierRest d = true := by
      rw [hlist] at hd
      rcases List.mem_cons.mp hd with rfl | hd
      · simp [identifierRest, hc]
      · exact hrest d hd
    by_cases hunderscore : d = '_'
    · simp [hunderscore]
    · have hhyphen : d ≠ '-' := by
        rintro rfl
        exact absurd hd' (by decide)
      simp [hunderscore, hhyphen]
  apply String.toList_injective
  rw [entityTable, entityTable, ← hback h, ← hback h', heq]

theorem slash_not_mem_entityApiSegment {name : String} (h : IsName name) :
    '/' ∉ (entityApiSegment name).toList := by
  obtain ⟨c, rest, hlist, hc, hrest⟩ := toList_toSnakeCase h
  rw [entityApiSegment, String.toList_ofList, hlist]
  intro hmem
  obtain ⟨d, hd, hslash⟩ := List.mem_map.mp hmem
  by_cases hunderscore : d = '_'
  · simp [hunderscore] at hslash
  · rw [if_neg hunderscore] at hslash
    have hd' : identifierRest d = true := by
      rcases List.mem_cons.mp hd with rfl | hd
      · simp [identifierRest, hc]
      · exact hrest d hd
    rw [hslash] at hd'
    exact absurd hd' (by decide)

section Compiles

variable {spec : AppSpec}

theorem entity_compiles (h : Compiler.compiles spec = true) {before after : List EntityDef}
    {entity : EntityDef} (hentities : spec.entities = before ++ entity :: after) :
    Compiler.entityErrors spec before.length before entity = [] := by
  simp only [Compiler.compiles, Compiler.compileErrors, decide_eq_true_eq,
    List.append_eq_nil_iff] at h
  exact entries_eq_nil_iff.mp h.2 before entity after hentities

theorem claimTable_eq_nil {origins : List Compiler.TableClaim} {claim : Compiler.TableClaim}
    (h : Compiler.claimTable origins claim = []) : claim.table ∉ origins.map (·.table) := by
  intro hmem
  obtain ⟨origin, horigin, htable⟩ := List.mem_map.mp hmem
  unfold Compiler.claimTable at h
  split at h
  · exact absurd h (by simp)
  · rename_i hnone
    have := List.find?_eq_none.mp hnone origin horigin
    simp [htable] at this

theorem exists_index {α : Type} {items : List α} {x : α} (h : x ∈ items) :
    ∃ i, (x, i) ∈ items.zipIdx := by
  obtain ⟨i, hi⟩ := List.mem_iff_getElem?.mp h
  exact ⟨i, List.mem_zipIdx_iff_getElem?.mpr hi⟩

theorem mem_claimsBefore {before : List EntityDef} {entity : EntityDef}
    (h : entity ∈ before) :
    Compiler.tableName entity.name ∈ (Compiler.claimsBefore spec before).map (·.table) := by
  obtain ⟨i, hi⟩ := exists_index h
  apply List.mem_map.mpr
  refine ⟨Compiler.claimOfEntity i entity, ?_, rfl⟩
  exact List.mem_flatMap.mpr ⟨(entity, i), hi, List.mem_cons_self⟩

theorem nodup_entityTables (h : Compiler.compiles spec = true) :
    (spec.entities.map fun entity => entityTable entity.name).Nodup := by
  apply nodup_of_entries
  intro before entity after hentities hmem
  have hnil := entity_compiles h hentities
  simp only [Compiler.entityErrors, List.append_eq_nil_iff] at hnil
  apply claimTable_eq_nil hnil.1.1
  obtain ⟨other, hother, htable⟩ := List.mem_map.mp hmem
  show Compiler.tableName entity.name ∈ _
  rw [Compiler.tableName, snakeCase_eq_toSnakeCase, ← entityTable, ← htable, entityTable,
    ← snakeCase_eq_toSnakeCase]
  exact mem_claimsBefore hother

theorem field_compiles (h : Compiler.compiles spec = true) {entity : EntityDef}
    (he : entity ∈ spec.entities) {before after : List FieldDef} {field : FieldDef}
    (hfields : entity.fields = before ++ field :: after) :
    ∃ path j, Compiler.columnErrors path j before field = [] := by
  obtain ⟨pre, post, hentities⟩ := List.append_of_mem he
  have hnil := entity_compiles h hentities
  simp only [Compiler.entityErrors, List.append_eq_nil_iff] at hnil
  have hfield := entries_eq_nil_iff.mp hnil.1.2 before field after hfields
  simp only [Compiler.fieldErrors, List.append_eq_nil_iff] at hfield
  exact ⟨_, _, hfield.1.1⟩

theorem nodup_columns (h : Compiler.compiles spec = true) {entity : EntityDef}
    (he : entity ∈ spec.entities) : (entity.fields.map columnFor).Nodup := by
  apply nodup_of_entries
  intro before field after hfields hmem
  obtain ⟨path, j, hnil⟩ := field_compiles h he hfields
  obtain ⟨other, hother, hcolumn⟩ := List.mem_map.mp hmem
  obtain ⟨i, hi⟩ := exists_index hother
  unfold Compiler.columnErrors at hnil
  dsimp only at hnil
  split at hnil
  · exact absurd hnil (by simp)
  split at hnil
  · exact absurd hnil (by simp)
  · rename_i hnone
    rw [Compiler.originOf, Option.map_eq_none_iff] at hnone
    have := List.find?_eq_none.mp hnone _ hi
    simp [columnName_eq_columnFor, hcolumn] at this

theorem column_not_reserved (h : Compiler.compiles spec = true) {entity : EntityDef}
    (he : entity ∈ spec.entities) {field : FieldDef} (hf : field ∈ entity.fields) :
    columnFor field ∉ Compiler.RESERVED_COLUMNS := by
  obtain ⟨before, after, hfields⟩ := List.append_of_mem hf
  obtain ⟨path, j, hnil⟩ := field_compiles h he hfields
  intro hmem
  rw [← columnName_eq_columnFor] at hmem
  simp [Compiler.columnErrors, hmem] at hnil

end Compiles

end OpenRupiv.Runtime
