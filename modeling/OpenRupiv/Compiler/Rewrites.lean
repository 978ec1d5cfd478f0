import OpenRupiv.Compiler.Names

/-!
# Every conversion of names

The conversions of `packages/compiler/src/naming.ts` and of the tests that the compiler emits
(`packages/compiler/src/app-test.ts`), as replacements by the expressions of the source, against
those of the runtime.
-/

namespace OpenRupiv.Compiler

open Js Spec OpenRupiv.Runtime

/-- `ACRONYM_BOUNDARY`, then `WORD_BOUNDARY`, both with the separator, and `toLowerCase`. -/
def separated (sep : Char) (name : String) : String :=
  String.ofList ((replaceAll wordPattern sep (replaceAll acronymPattern sep name.toList)).map
    Char.toLower)

def kebabCase (name : String) : String := separated '-' name

/-- `snakeCase` of the emitted `spec.test.mjs`. -/
def specTestSnakeCase (name : String) : String := separated '_' name

theorem separated_eq_snakeCase (name : String) : separated '_' name = snakeCase name := by
  rw [separated, snakeCase, splitWords_eq, splitAcronyms_eq]

def hyphen (c : Char) : Char := if c = '_' then '-' else c

private theorem hyphen_classes (c : Char) :
    (hyphen c).isUpper = c.isUpper ∧ (hyphen c).isLower = c.isLower ∧
      (hyphen c).isDigit = c.isDigit := by
  by_cases h : c = '_'
  · subst h
    decide
  · simp [hyphen, h]

private theorem wordBreak_hyphen (c : Char) (cs : List Char) :
    wordBreak (hyphen c) (cs.map hyphen) = wordBreak c cs := by
  have hclasses := hyphen_classes c
  cases cs with
  | nil => simp [wordBreak]
  | cons d rest => simp [wordBreak, hclasses, hyphen_classes d]

private theorem acronymBreak_hyphen (c : Char) (cs : List Char) :
    acronymBreak (hyphen c) (cs.map hyphen) = acronymBreak c cs := by
  have hclasses := hyphen_classes c
  match cs with
  | [] | [d] => simp [acronymBreak, startsWord]
  | d :: e :: rest => simp [acronymBreak, startsWord, hclasses, hyphen_classes d, hyphen_classes e]

private theorem toLower_hyphen (c : Char) : (hyphen c).toLower = hyphen c.toLower := by
  by_cases h : c = '_'
  · subst h
    decide
  · have hlower : c.toLower ≠ '_' := by
      intro heq
      by_cases hupper : c.isUpper = true
      · have hletter : isLetter c = true := by simp [isLetter, hupper]
        have hlow := isLower_toLower hletter
        rw [heq] at hlow
        exact absurd hlow (by decide)
      · rw [toLower_of_not_isUpper (by simpa using hupper)] at heq
        exact h heq
    simp [hyphen, h, hlower]

/-- Without underscores in the name, hyphens can be put in the place of those of the conversion. -/
theorem kebabCase_eq_entityApiSegment {name : String} (h : IsName name) :
    kebabCase name = entityApiSegment name := by
  obtain ⟨c, rest, hname, hc, hrest⟩ := h
  have hfixed : name.toList.map hyphen = name.toList := by
    apply (List.map_congr_left _).trans (List.map_id _)
    intro d hd
    have hne : d ≠ '_' := by
      rw [hname] at hd
      rcases List.mem_cons.mp hd with rfl | hd
      · rintro rfl
        exact absurd hc (by decide)
      · rintro rfl
        exact absurd (hrest _ hd) (by decide)
    simp [hyphen, hne]
  have hword := @map_breakAt wordBreak hyphen wordBreak_hyphen '_'
  have hacronym := @map_breakAt acronymBreak hyphen acronymBreak_hyphen '_'
  have hseparator : hyphen '_' = '-' := by decide
  rw [hseparator] at hword hacronym
  rw [entityApiSegment, ← snakeCase_eq_toSnakeCase, ← separated_eq_snakeCase, kebabCase, separated,
    separated, String.toList_ofList]
  simp only [replaceAll_word, replaceAll_acronym]
  rw [← hfixed, ← hacronym, ← hword, hfixed, List.map_map, List.map_map]
  congr 1
  exact List.map_congr_left fun d _ => toLower_hyphen d

/-- The conversions of a name of a spec, by the compiler, by its tests and by the runtime. -/
theorem naming_agrees {name : String} (h : isEntityName name = true ∨ isMemberName name = true) :
    snakeCase name = toSnakeCase name ∧ specTestSnakeCase name = toSnakeCase name ∧
      (isEntityName name = true → kebabCase name = entityApiSegment name) ∧
      (∃ quoted, quoteIdent (entityTable name) = .ok quoted) ∧
      ∀ field : FieldDef, field.name = name →
        columnName field = columnFor field ∧ ∃ quoted, quoteIdent (columnFor field) = .ok quoted := by
  have hname : IsName name := h.elim isName_of_isEntityName isName_of_isMemberName
  have hquoted : ∀ {ident : String}, isSqlIdentifier ident = true →
      ∃ quoted, quoteIdent ident = .ok quoted := by
    intro ident hident
    exact ⟨_, if_pos hident⟩
  refine ⟨snakeCase_eq_toSnakeCase name, ?_, ?_, ?_, ?_⟩
  · rw [specTestSnakeCase, separated_eq_snakeCase, snakeCase_eq_toSnakeCase]
  · intro _
    exact kebabCase_eq_entityApiSegment hname
  · exact hquoted (isSqlIdentifier_toSnakeCase hname)
  · rintro field rfl
    exact ⟨columnName_eq_columnFor field, hquoted (isSqlIdentifier_columnFor hname)⟩

theorem naming_agrees_acronyms :
    snakeCase "HTTPServer2XL" = toSnakeCase "HTTPServer2XL" ∧
      specTestSnakeCase "HTTPServer2XL" = toSnakeCase "HTTPServer2XL" ∧
      (isEntityName "HTTPServer2XL" = true →
        kebabCase "HTTPServer2XL" = entityApiSegment "HTTPServer2XL") ∧
      (∃ quoted, quoteIdent (entityTable "HTTPServer2XL") = .ok quoted) ∧
      ∀ field : FieldDef, field.name = "HTTPServer2XL" →
        columnName field = columnFor field ∧ ∃ quoted, quoteIdent (columnFor field) = .ok quoted :=
  naming_agrees (.inl (by decide))

end OpenRupiv.Compiler
