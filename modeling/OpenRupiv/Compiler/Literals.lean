import OpenRupiv.Compiler.Migration
import OpenRupiv.Lib.SqlTokens

/-!
# Literals in a column definition

A column definition that the compiler prints, read by the rules of SQL: every default and every
value of an enum comes back as one constant, whatever characters it has.
-/

namespace OpenRupiv.Compiler

open Js Spec Lib.Sql

def word (s : String) : Token := .word s.toList

/-- The text of a literal, read as one constant. -/
def literal (value : String) : Token := .quoted .string (sqlStringLiteral value).toList value.toList

def minusSign (neg : Bool) : List Token := if neg then [.symbol '-'] else []

def numberTokens : Num → List Token
  | .infinite neg => minusSign neg ++ [word "Infinity"]
  | .zero _ => [.number ['0']]
  | .finite d => minusSign d.neg ++ [.number (formatDigits d.digits d.point)]

def literalTokens : Literal → List Token
  | .str s => [literal s]
  | .num n => numberTokens n
  | .bool b => [word (if b then "true" else "false")]

def ColumnDefault.tokens : ColumnDefault → List Token
  | .genRandomUuid => [word "gen_random_uuid", .symbol '(', .symbol ')']
  | .now => [word "now", .symbol '(', .symbol ')']
  | .literal value => literalTokens value

def SqlType.tokens : SqlType → List Token
  | .doublePrecision => [word "double", word "precision"]
  | type => [word type.print]

def literalList (values : List String) : List Token :=
  (values.map literal).intersperse (.symbol ',')

/-- The parts of a column definition, and the tokens that are meant by each. -/
def ColumnDef.parts (column : ColumnDef) : List (String × List Token) :=
  [(column.name, [word column.name]), (column.type.print, column.type.tokens)] ++
    (if column.primaryKey then [("PRIMARY KEY", [word "PRIMARY", word "KEY"])] else []) ++
    (if column.notNull then [("NOT NULL", [word "NOT", word "NULL"])] else []) ++
    (if column.unique then [("UNIQUE", [word "UNIQUE"])] else []) ++
    (column.default.map fun default =>
      ("DEFAULT " ++ default.print, word "DEFAULT" :: default.tokens)).toList ++
    (column.check.map fun values =>
      ("CHECK (" ++ column.name ++ " IN (" ++
        String.intercalate ", " (values.map sqlStringLiteral) ++ "))",
      [word "CHECK", .symbol '(', word column.name, word "IN", .symbol '('] ++ literalList values ++
        [.symbol ')', .symbol ')'])).toList ++
    (column.references.map fun target =>
      ("REFERENCES " ++ target ++ "(id)",
        [word "REFERENCES", word target, .symbol '(', word "id", .symbol ')'])).toList

def ColumnDef.tokens (column : ColumnDef) : List Token := column.parts.flatMap Prod.snd

theorem ColumnDef.print_eq (column : ColumnDef) :
    column.print = String.intercalate " " (column.parts.map Prod.fst) := by
  have hif : ∀ (b : Bool) (p : String × List Token),
      (if b then [p] else []).map Prod.fst = if b then [p.1] else [] := by
    intro b p
    cases b <;> rfl
  have hoption : ∀ {α : Type} (o : Option α) (f : α → String × List Token),
      (o.map f).toList.map Prod.fst = (o.map fun a => (f a).1).toList := by
    intro α o f
    cases o <;> rfl
  simp only [ColumnDef.print, ColumnDef.parts, List.map_append, hif, hoption, List.map_cons,
    List.map_nil]

theorem toList_sqlStringLiteral (value : String) :
    (sqlStringLiteral value).toList = constant value.toList := by
  rw [sqlStringLiteral, String.toList_ofList]
  rfl

theorem reads_literal (value : String) : Reads (sqlStringLiteral value).toList [literal value] := by
  rw [literal, toList_sqlStringLiteral]
  exact reads_constant value.toList

private theorem isDigit_digitChar (d : Digit) : (digitChar d).isDigit = true := by
  revert d
  decide

private theorem isDigit_map {ds : List Digit} : ∀ c ∈ ds.map digitChar, c.isDigit = true := by
  intro c hc
  obtain ⟨d, -, rfl⟩ := List.mem_map.mp hc
  exact isDigit_digitChar d

private theorem isDigit_zeros {n : Nat} : ∀ c ∈ List.replicate n '0', c.isDigit = true := by
  intro c hc
  rw [List.eq_of_mem_replicate hc]
  rfl

private theorem isExponentMark_of_isDigit {c : Char} (h : c.isDigit = true) :
    isExponentMark c = false := by
  have hne : ∀ d : Char, d.isDigit = false → c ≠ d := by
    rintro d hd rfl
    rw [h] at hd
    exact absurd hd (by decide)
  simp [isExponentMark, hne 'e' (by decide), hne 'E' (by decide)]

/-- Each form of `Number::toString` is a number of SQL. -/
theorem isNumeral_formatDigits {ds : List Digit} (h : Trimmed ds) (n : Int) :
    IsNumeral (formatDigits ds n) := by
  have hne : ds ≠ [] := h.1
  unfold formatDigits
  dsimp only
  split
  · apply IsNumeral.digits
    · simp [hne]
    · intro c hc
      rcases List.mem_append.mp hc with hc | hc
      · exact isDigit_map c hc
      · exact isDigit_zeros c hc
  · split
    · rename_i hpoint
      apply IsNumeral.fraction _ isDigit_map isDigit_map
      have hpositive : n.toNat ≠ 0 := by omega
      simp [hne, hpositive]
    · split
      · refine @IsNumeral.fraction ['0'] _ (by simp) (by simp) ?_
        intro c hc
        rcases List.mem_append.mp hc with hc | hc
        · exact isDigit_zeros c hc
        · exact isDigit_map c hc
      · have hsign : ∀ b : Prop, [Decidable b] →
            (if b then '-' else '+') = '+' ∨ (if b then '-' else '+') = '-' := by
          intro b _
          by_cases hb : b <;> simp [hb]
        cases ds with
        | nil => exact absurd rfl hne
        | cons d rest =>
          cases rest with
          | nil =>
            have hd : ∀ c ∈ [digitChar d], c.isDigit = true := by
              simp [isDigit_digitChar]
            refine @IsNumeral.exponent [digitChar d] _ _ (.digits (by simp) hd) ?_ (hsign _)
              isDigit_map
            exact fun c hc => isExponentMark_of_isDigit (hd c hc)
          | cons d' rest =>
            have hd : ∀ c ∈ [digitChar d], c.isDigit = true := by
              simp [isDigit_digitChar]
            refine @IsNumeral.exponent ([digitChar d] ++ '.' :: (d' :: rest).map digitChar) _ _
              (.fraction (by simp) hd isDigit_map) ?_ (hsign _) isDigit_map
            intro c hc
            rcases List.mem_append.mp hc with hc | hc
            · exact isExponentMark_of_isDigit (hd c hc)
            · rcases List.mem_cons.mp hc with rfl | hc
              · rfl
              · exact isExponentMark_of_isDigit (isDigit_map c hc)

private theorem reads_minusSign {cs : List Char} {out : List Token} (neg : Bool)
    (hcs : ∃ c rest, cs = c :: rest ∧ c ≠ '-') (h : Reads cs out) :
    Reads ((if neg then ['-'] else []) ++ cs) (minusSign neg ++ out) := by
  cases neg with
  | false => exact h
  | true =>
    obtain ⟨c, more, rfl, hc⟩ := hcs
    intro rest hrest
    have hdash : step .start '-' = (.dash, []) := rfl
    have hnext : step .dash c = emit [.symbol '-'] c := by
      rw [step, if_neg hc]
    have hread := h rest hrest
    rw [List.cons_append, read_cons] at hread
    rw [if_pos rfl, List.singleton_append, List.cons_append, List.cons_append, read_cons, hdash,
      read_cons, hnext]
    simpa [emit, step, minusSign, Prod.ext_iff] using hread

private theorem head_of_isNumeral {cs : List Char} (h : IsNumeral cs) :
    ∃ c rest, cs = c :: rest ∧ c.isDigit = true := by
  induction h with
  | @digits whole hne hwhole =>
    obtain ⟨c, rest, rfl⟩ := List.exists_cons_of_ne_nil hne
    exact ⟨c, rest, rfl, hwhole c List.mem_cons_self⟩
  | @fraction whole part hne hwhole _ =>
    obtain ⟨c, rest, rfl⟩ := List.exists_cons_of_ne_nil hne
    exact ⟨c, rest ++ '.' :: part, rfl, hwhole c List.mem_cons_self⟩
  | exponent _ _ _ _ ih =>
    obtain ⟨c, rest, rfl, hc⟩ := ih
    exact ⟨c, _, rfl, hc⟩

theorem reads_number_text (n : Num) : Reads (numberText n).toList (numberTokens n) := by
  cases n with
  | infinite neg =>
    have hword : Reads "Infinity".toList [word "Infinity"] := reads_word (by decide)
    have htext : (numberText (.infinite neg)).toList =
        (if neg then ['-'] else []) ++ "Infinity".toList := by
      cases neg <;> decide
    rw [htext]
    exact reads_minusSign neg ⟨'I', "nfinity".toList, rfl, by decide⟩ hword
  | zero neg =>
    have hzero : (numberText (.zero neg)).toList = ['0'] := by
      rw [numberText, String.toList_ofList]
      · rfl
      · intro _ h
        cases h
    rw [hzero]
    exact reads_number (.digits (by simp) (by simp))
  | finite d =>
    have hnumeral := isNumeral_formatDigits d.trimmed d.point
    obtain ⟨c, rest, hc, hdigit⟩ := head_of_isNumeral hnumeral
    have htext : (numberText (.finite d)).toList =
        (if d.neg then ['-'] else []) ++ formatDigits d.digits d.point := by
      rw [numberText, String.toList_ofList]
      · rfl
      · intro _ h
        cases h
    rw [htext]
    refine reads_minusSign d.neg ⟨c, rest, hc, ?_⟩ (reads_number hnumeral)
    rintro rfl
    exact absurd hdigit (by decide)

theorem reads_default (default : ColumnDefault) : Reads default.print.toList default.tokens := by
  cases default with
  | genRandomUuid =>
    exact @Reads.word_parenthesis "gen_random_uuid".toList _ _ (by decide) reads_nil.closed
  | now => exact @Reads.word_parenthesis "now".toList _ _ (by decide) reads_nil.closed
  | literal value =>
    cases value with
    | str s => exact reads_literal s
    | num n => exact reads_number_text n
    | bool b =>
      cases b with
      | false => exact reads_word (by decide)
      | true => exact reads_word (by decide)

theorem reads_values (values : List String) :
    Reads (String.intercalate ", " (values.map sqlStringLiteral)).toList (literalList values) := by
  rw [String.toList_intercalate, List.map_map]
  induction values with
  | nil => exact reads_nil
  | cons value values ih =>
    cases values with
    | nil => simpa [literalList] using reads_literal value
    | cons next values =>
      have h := (reads_literal value).comma ih
      rw [List.map_cons, List.map_cons, List.intercalate_cons_cons, ← List.map_cons]
      simpa [literalList] using h

theorem isWord_of_isSqlIdentifier {name : String} (h : Runtime.isSqlIdentifier name = true) :
    isWord name.toList = true := by
  unfold Runtime.isSqlIdentifier at h
  split at h
  · exact absurd h (by simp)
  · rename_i c rest hlist
    rw [hlist, isWord]
    simp only [Bool.and_eq_true, Bool.or_eq_true, List.all_eq_true, beq_iff_eq] at h ⊢
    refine ⟨?_, ?_⟩
    · rcases h.1 with hc | rfl
      · simp [Lib.Sql.startsWord, Lib.isAlpha_eq, hc]
      · rfl
    · intro d hd
      rcases h.2 d hd with (hlower | hdigit) | rfl
      · simp [continuesWord, Lib.Sql.startsWord, Lib.isAlpha_eq, hlower]
      · simp [continuesWord, hdigit]
      · rfl

private theorem head_of_word {w : List Char} (h : isWord w = true) (more : List Char) :
    ∃ c rest, w ++ more = c :: rest ∧ isSpace c = false ∧ c ≠ quoteMark := by
  cases w with
  | nil => exact absurd h (by decide)
  | cons c rest =>
    rw [isWord, Bool.and_eq_true] at h
    refine ⟨c, rest ++ more, rfl, isSpace_of_startsWord h.1, ?_⟩
    rintro rfl
    exact absurd h.1 (by decide)

private theorem reads_type (type : SqlType) :
    Reads type.print.toList type.tokens ∧
      ∃ c more, type.print.toList = c :: more ∧ isSpace c = false ∧ c ≠ quoteMark := by
  cases type with
  | doublePrecision =>
    exact ⟨@Reads.word_space "double".toList _ _ (by decide) (reads_word (by decide)),
      @head_of_word "double".toList (by decide) " precision".toList⟩
  | text => exact ⟨reads_word (by decide), 't', "ext".toList, rfl, by decide⟩
  | boolean => exact ⟨reads_word (by decide), 'b', "oolean".toList, rfl, by decide⟩
  | date => exact ⟨reads_word (by decide), 'd', "ate".toList, rfl, by decide⟩
  | timestamptz => exact ⟨reads_word (by decide), 't', "imestamptz".toList, rfl, by decide⟩
  | uuid => exact ⟨reads_word (by decide), 'u', "uid".toList, rfl, by decide⟩

theorem reads_column {column : ColumnDef} (hname : isWord column.name.toList = true)
    (htarget : ∀ target ∈ column.references, isWord target.toList = true) :
    Reads column.print.toList column.tokens := by
  have hpieces : column.print.toList =
      [' '].intercalate ((column.parts.map fun p => (p.1.toList, p.2)).map Prod.fst) := by
    rw [column.print_eq, String.toList_intercalate, List.map_map, List.map_map]
    rfl
  have htokens : column.tokens =
      (column.parts.map fun p => (p.1.toList, p.2)).flatMap Prod.snd := by
    rw [List.flatMap_map]
    rfl
  rw [hpieces, htokens]
  apply reads_spaced
  · simp [ColumnDef.parts]
  intro piece hpiece
  obtain ⟨part, hpart, rfl⟩ := List.mem_map.mp hpiece
  dsimp only
  simp only [ColumnDef.parts, List.mem_append, List.mem_cons, List.not_mem_nil, or_false] at hpart
  rcases hpart with ((((((rfl | rfl) | hkey) | hnull) | hunique) | hdefault) | hcheck) | href
  · refine ⟨reads_word hname, ?_⟩
    simpa using head_of_word hname []
  · exact reads_type column.type
  · split at hkey
    · obtain rfl := List.mem_singleton.mp hkey
      exact ⟨@Reads.word_space "PRIMARY".toList _ _ (by decide) (reads_word (by decide)),
        @head_of_word "PRIMARY".toList (by decide) " KEY".toList⟩
    · exact absurd hkey List.not_mem_nil
  · split at hnull
    · obtain rfl := List.mem_singleton.mp hnull
      exact ⟨@Reads.word_space "NOT".toList _ _ (by decide) (reads_word (by decide)),
        @head_of_word "NOT".toList (by decide) " NULL".toList⟩
    · exact absurd hnull List.not_mem_nil
  · split at hunique
    · obtain rfl := List.mem_singleton.mp hunique
      exact ⟨reads_word (by decide), @head_of_word "UNIQUE".toList (by decide) []⟩
    · exact absurd hunique List.not_mem_nil
  · obtain ⟨default, -, rfl⟩ := Option.map_eq_some_iff.mp (Option.mem_toList.mp hdefault)
    dsimp only
    have htext : ("DEFAULT " ++ default.print).toList =
        "DEFAULT".toList ++ ' ' :: default.print.toList := by
      rw [String.toList_append]
      rfl
    rw [htext]
    exact ⟨Reads.word_space (by decide) (reads_default default), head_of_word (by decide) _⟩
  · obtain ⟨values, -, rfl⟩ := Option.map_eq_some_iff.mp (Option.mem_toList.mp hcheck)
    dsimp only
    have htext : ("CHECK (" ++ column.name ++ " IN (" ++
        String.intercalate ", " (values.map sqlStringLiteral) ++ "))").toList =
        "CHECK".toList ++ ' ' :: '(' :: (column.name.toList ++ ' ' :: ("IN".toList ++ ' ' :: '(' ::
          ((String.intercalate ", " (values.map sqlStringLiteral)).toList ++ [')'] ++ [')']))) := by
      simp only [String.toList_append, List.append_assoc]
      rfl
    have hlist : [word "CHECK", .symbol '(', word column.name, word "IN", .symbol '('] ++
        literalList values ++ [.symbol ')', .symbol ')'] =
        word "CHECK" :: .symbol '(' :: word column.name :: word "IN" :: .symbol '(' ::
          (literalList values ++ [.symbol ')'] ++ [.symbol ')']) := by
      simp
    rw [htext, hlist]
    refine ⟨?_, head_of_word (by decide) _⟩
    apply Reads.word_space (by decide)
    apply Reads.parenthesis
    apply Reads.word_space hname
    apply Reads.word_space (by decide)
    apply Reads.parenthesis
    exact (reads_values values).closed.closed
  · obtain ⟨target, htarget', rfl⟩ := Option.map_eq_some_iff.mp (Option.mem_toList.mp href)
    dsimp only
    have htext : ("REFERENCES " ++ target ++ "(id)").toList =
        "REFERENCES".toList ++ ' ' :: (target.toList ++ '(' :: ("id".toList ++ [')'])) := by
      simp only [String.toList_append, List.append_assoc]
      rfl
    rw [htext]
    refine ⟨?_, head_of_word (by decide) _⟩
    apply Reads.word_space (by decide)
    exact Reads.word_parenthesis (htarget target htarget') (reads_word (by decide)).closed

/-- The literals that `renderColumn` emits: a default that is a string, then the values of an
enum. -/
def emittedLiterals (field : FieldDef) : List String :=
  (match field.default with
    | some (.str s) => [s]
    | _ => []) ++
  if field.type = .enum then field.values.getD [] else []

def isQuoted : Token → Bool
  | .quoted .. => true
  | _ => false

private theorem quoted_numberTokens (n : Num) : (numberTokens n).filter isQuoted = [] := by
  cases n with
  | infinite neg => cases neg <;> rfl
  | zero neg => rfl
  | finite d =>
    rw [numberTokens, List.filter_append]
    cases d.neg <;> rfl

private theorem quoted_literalList (values : List String) :
    (literalList values).filter isQuoted = values.map literal := by
  induction values with
  | nil => rfl
  | cons value values ih =>
    cases values with
    | nil => rfl
    | cons next values =>
      have hsplit : literalList (value :: next :: values) =
          literal value :: .symbol ',' :: literalList (next :: values) := rfl
      rw [hsplit, List.filter_cons_of_pos (by rfl), List.filter_cons_of_neg (by decide), ih]
      rfl

theorem quoted_tokens (field : FieldDef) (deferReference : Bool) :
    (renderColumn field deferReference).tokens.filter isQuoted =
      (emittedLiterals field).map literal := by
  have htype : (sqlType field.type).tokens.filter isQuoted = [] := by
    cases field.type <;> rfl
  have hflag : ∀ (b : Bool) (text : String) (out : List Token), out.filter isQuoted = [] →
      (if b then [(text, out)] else []).flatMap (fun p => p.2.filter isQuoted) = [] := by
    intro b text out hout
    cases b with
    | false => rfl
    | true => simpa using hout
  have hdefault : ((renderColumn field deferReference).default.map fun default =>
      ("DEFAULT " ++ default.print, word "DEFAULT" :: default.tokens)).toList.flatMap
        (fun p => p.2.filter isQuoted) =
      (match field.default with
        | some (.str s) => [s]
        | _ => []).map literal := by
    rw [renderColumn]
    cases field.default with
    | none => rfl
    | some value =>
      cases value with
      | str s => rfl
      | bool b => cases b <;> rfl
      | num n =>
        change (word "DEFAULT" :: numberTokens n).filter isQuoted ++ [] = []
        rw [List.append_nil, List.filter_cons_of_neg (by decide), quoted_numberTokens]
  have hcheck : ((renderColumn field deferReference).check.map fun values =>
      ("CHECK (" ++ (renderColumn field deferReference).name ++ " IN (" ++
        String.intercalate ", " (values.map sqlStringLiteral) ++ "))",
      [word "CHECK", .symbol '(', word (renderColumn field deferReference).name, word "IN",
        .symbol '('] ++ literalList values ++ [.symbol ')', .symbol ')'])).toList.flatMap
        (fun p => p.2.filter isQuoted) =
      (if field.type = .enum then field.values.getD [] else []).map literal := by
    rw [renderColumn]
    by_cases henum : field.type = .enum
    · rw [if_pos henum, if_pos henum, ← quoted_literalList]
      simp [isQuoted, word]
    · rw [if_neg henum, if_neg henum]
      rfl
  have hreferences : ((renderColumn field deferReference).references.map fun target =>
      ("REFERENCES " ++ target ++ "(id)",
        [word "REFERENCES", word target, .symbol '(', word "id", .symbol ')'])).toList.flatMap
        (fun p => p.2.filter isQuoted) = [] := by
    cases (renderColumn field deferReference).references <;> rfl
  rw [ColumnDef.tokens, ColumnDef.parts, List.filter_flatMap]
  simp only [List.flatMap_append]
  rw [hflag _ _ _ (by decide), hflag _ _ _ (by decide), hflag _ _ _ (by decide), hdefault, hcheck,
    hreferences, emittedLiterals, List.map_append, List.append_nil, List.append_nil,
    List.append_nil, List.append_nil]
  have hfront : [((renderColumn field deferReference).name,
      [word (renderColumn field deferReference).name]),
      ((renderColumn field deferReference).type.print,
        (renderColumn field deferReference).type.tokens)].flatMap (fun p => p.2.filter isQuoted) =
      [] := by
    simpa [word, isQuoted, renderColumn] using htype
  rw [hfront, List.nil_append]

/-- A column definition, with anything that may come before it and after its comma, is read as it is
meant: each literal that `renderColumn` emits is one constant, which has the text of the literal and
the original value, and there is no other constant. -/
theorem literals_read_back (field : FieldDef) (deferReference : Bool)
    (hname : Runtime.IsName field.name)
    (htarget : field.type = .reference → ∃ target, field.entity = some target ∧
      Runtime.IsName target)
    (before after : List Char) (out : List Token) (hbefore : read .start before = (.start, out)) :
    let column := renderColumn field deferReference
    tokens (before ++ column.print.toList ++ ',' :: after) =
        (tokens after).map (out ++ column.tokens ++ [.symbol ','] ++ ·) ∧
      column.tokens.filter isQuoted = (emittedLiterals field).map literal := by
  intro column
  refine ⟨?_, quoted_tokens field deferReference⟩
  have hcolumn : isWord column.name.toList = true := by
    apply isWord_of_isSqlIdentifier
    change Runtime.isSqlIdentifier (columnName field) = true
    rw [Runtime.columnName_eq_columnFor]
    exact Runtime.isSqlIdentifier_columnFor hname
  have hreferences : ∀ target ∈ column.references, isWord target.toList = true := by
    intro target hmem
    have hsome : column.references = some target := hmem
    simp only [column, renderColumn] at hsome
    split at hsome
    · rename_i href
      obtain ⟨entity, hentity, hvalid⟩ := htarget href.1
      rw [← Option.some.inj hsome, hentity, Option.getD_some]
      apply isWord_of_isSqlIdentifier
      rw [tableName, Runtime.snakeCase_eq_toSnakeCase]
      exact Runtime.isSqlIdentifier_toSnakeCase hvalid
    · exact absurd hsome (by simp)
  have hread : read .start (before ++ column.print.toList ++ [','] ++ after) =
      ((read .start after).1, out ++ column.tokens ++ [.symbol ','] ++ (read .start after).2) := by
    rw [List.append_assoc, List.append_assoc, read_append, hbefore, List.singleton_append,
      reads_column hcolumn hreferences _ .comma, read_symbol (.inr (.inr rfl))]
    simp
  have hsplit : before ++ column.print.toList ++ ',' :: after =
      before ++ column.print.toList ++ [','] ++ after := by simp
  rw [hsplit]
  exact tokens_append hread

/-- A default with a quotation mark at its start, at its end and doubled in between. -/
theorem literals_read_back_quotes :
    let field : FieldDef :=
      { name := "note", type := .string, default := some (.str "'it''s'") }
    let column := renderColumn field false
    tokens ("CREATE TABLE notes (\n  ".toList ++ column.print.toList ++ ',' :: " x uuid".toList) =
        (tokens " x uuid".toList).map ([word "CREATE", word "TABLE", word "notes", .symbol '('] ++
          column.tokens ++ [.symbol ','] ++ ·) ∧
      column.tokens.filter isQuoted = (emittedLiterals field).map literal := by
  apply literals_read_back
  · exact Runtime.isName_of_isMemberName (by decide +kernel)
  · intro htype
    exact absurd htype (by decide)
  · rfl

end OpenRupiv.Compiler
