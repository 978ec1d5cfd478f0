import OpenRupiv.Lib.Letters
import Mathlib.Data.List.Basic
import Mathlib.Data.List.Infix
import Mathlib.Tactic.Common

/-!
# The tokens of SQL

The lexical rules of PostgreSQL with `standard_conforming_strings` on: words, numbers, constants and
names in quotes, dollar quoting and comments.  A backslash means something in `E'…'` only, and its
sequences are kept as they are written.
-/

namespace OpenRupiv.Lib.Sql

def quoteMark : Char := Char.ofNat 39

/-- What stands in quotes: `'…'` and `N'…'`, `E'…'`, `B'…'` and `X'…'`, `U&'…'`, `"…"`, `U&"…"`. -/
inductive Quoting where
  | string
  | escape
  | bits
  | unicode
  | name
  | unicodeName
  deriving DecidableEq

def Quoting.mark : Quoting → Char
  | .name | .unicodeName => '"'
  | _ => quoteMark

/-- The meaning of a word right before a quotation mark. -/
def Quoting.ofWord : List Char → Option Quoting
  | ['e'] | ['E'] => some .escape
  | ['b'] | ['B'] | ['x'] | ['X'] => some .bits
  | ['n'] | ['N'] => some .string
  | _ => none

inductive Token where
  | word (text : List Char)
  | number (text : List Char)
  /-- The text from which it is read, and its value. -/
  | quoted (kind : Quoting) (text value : List Char)
  | dollarQuoted (value : List Char)
  | symbol (c : Char)
  deriving DecidableEq

inductive Mode where
  | start
  | word (text : List Char)
  /-- After `U&`. -/
  | unicode (text : List Char)
  | number (text : List Char)
  | quoted (kind : Quoting) (text value : List Char)
  | escaped (kind : Quoting) (text value : List Char)
  /-- After a mark that ends the quotes unless it is doubled. -/
  | closed (kind : Quoting) (text value : List Char)
  /-- In white space after a constant, which goes on when the space has a new line in it. -/
  | gap (kind : Quoting) (text value space : List Char)
  | dash
  | slash
  | lineComment
  | blockComment (depth : Nat) (last : Char)
  | dollarTag (tag : List Char)
  | dollarBody (tag value : List Char)

def isSpace (c : Char) : Bool := c = ' ' || 9 ≤ c.toNat && c.toNat ≤ 13

def startsWord (c : Char) : Bool := c.isAlpha || c = '_' || 128 ≤ c.toNat

def continuesWord (c : Char) : Bool := startsWord c || c.isDigit || c = '$'

def isExponentMark (c : Char) : Bool := c = 'e' || c = 'E'

/-- Digits, a point, digits, and an exponent with or without a sign. -/
def continuesNumber (text : List Char) (c : Char) : Bool :=
  c.isDigit || (c = '.' && !text.contains '.' && !text.any isExponentMark) ||
    (isExponentMark c && !text.any isExponentMark) ||
    ((c = '+' || c = '-') && text.getLast?.any isExponentMark)

/-- The first character of a token, or one that stands for itself. -/
def opening (c : Char) : Mode × List Token :=
  if isSpace c then (.start, [])
  else if startsWord c then (.word [c], [])
  else if c.isDigit then (.number [c], [])
  else if c = quoteMark then (.quoted .string [c] [], [])
  else if c = '"' then (.quoted .name [c] [], [])
  else if c = '-' then (.dash, [])
  else if c = '/' then (.slash, [])
  else if c = '$' then (.dollarTag [], [])
  else (.start, [.symbol c])

/-- The tokens before `c` are complete. -/
def emit (tokens : List Token) (c : Char) : Mode × List Token :=
  ((opening c).1, tokens ++ (opening c).2)

/-- What is pending at the end of a text, unless the text must go on. -/
def Mode.pending : Mode → Option (List Token)
  | .start | .lineComment => some []
  | .word text => some [.word text]
  | .unicode text => some [.word text.dropLast, .symbol '&']
  | .number text => some [.number text]
  | .closed kind text value | .gap kind text value _ => some [.quoted kind text value]
  | .dash => some [.symbol '-']
  | .slash => some [.symbol '/']
  | .dollarTag tag => some (.symbol '$' :: if tag = [] then [] else [.word tag])
  | _ => none

def step : Mode → Char → Mode × List Token
  | .start, c => opening c
  | .word text, c =>
      if continuesWord c then (.word (text ++ [c]), [])
      else if c = '&' ∧ (text = ['u'] ∨ text = ['U']) then (.unicode (text ++ [c]), [])
      else if c = quoteMark then
        match Quoting.ofWord text with
        | some kind => (.quoted kind (text ++ [c]) [], [])
        | none => emit [.word text] c
      else emit [.word text] c
  | .unicode text, c =>
      if c = quoteMark then (.quoted .unicode (text ++ [c]) [], [])
      else if c = '"' then (.quoted .unicodeName (text ++ [c]) [], [])
      else emit [.word text.dropLast, .symbol '&'] c
  | .number text, c =>
      if continuesNumber text c then (.number (text ++ [c]), []) else emit [.number text] c
  | .quoted kind text value, c =>
      if c = kind.mark then (.closed kind (text ++ [c]) value, [])
      else if kind = .escape ∧ c = Char.ofNat 92 then
        (.escaped kind (text ++ [c]) (value ++ [c]), [])
      else (.quoted kind (text ++ [c]) (value ++ [c]), [])
  | .escaped kind text value, c => (.quoted kind (text ++ [c]) (value ++ [c]), [])
  | .closed kind text value, c =>
      if c = kind.mark then (.quoted kind (text ++ [c]) (value ++ [c]), [])
      else if isSpace c ∧ kind.mark = quoteMark then (.gap kind text value [c], [])
      else emit [.quoted kind text value] c
  | .gap kind text value space, c =>
      if isSpace c then (.gap kind text value (space ++ [c]), [])
      else if c = quoteMark ∧ '\n' ∈ space then (.quoted kind (text ++ space ++ [c]) value, [])
      else emit [.quoted kind text value] c
  | .dash, c => if c = '-' then (.lineComment, []) else emit [.symbol '-'] c
  | .slash, c => if c = '*' then (.blockComment 1 ' ', []) else emit [.symbol '/'] c
  | .lineComment, c => (if c = '\n' then .start else .lineComment, [])
  | .blockComment depth last, c =>
      if last = '*' ∧ c = '/' then
        (if depth = 1 then .start else .blockComment (depth - 1) ' ', [])
      else if last = '/' ∧ c = '*' then (.blockComment (depth + 1) ' ', [])
      else (.blockComment depth c, [])
  | .dollarTag tag, c =>
      if c = '$' then (.dollarBody tag [], [])
      else if continuesWord c then (.dollarTag (tag ++ [c]), [])
      else emit (.symbol '$' :: if tag = [] then [] else [.word tag]) c
  | .dollarBody tag value, c =>
      let mark := '$' :: tag ++ ['$']
      if mark <:+ value ++ [c] then
        (.start, [.dollarQuoted ((value ++ [c]).take (value.length + 1 - mark.length))])
      else (.dollarBody tag (value ++ [c]), [])

/-- From a mode to a mode, with the tokens that are complete. -/
def read : Mode → List Char → Mode × List Token
  | mode, [] => (mode, [])
  | mode, c :: cs =>
      let (next, out) := step mode c
      let (last, rest) := read next cs
      (last, out ++ rest)

/-- The tokens of a text; none if a quote or a comment is left open. -/
def tokens (cs : List Char) : Option (List Token) :=
  let (last, out) := read .start cs
  last.pending.map (out ++ ·)

theorem read_cons (mode : Mode) (c : Char) (cs : List Char) :
    read mode (c :: cs) =
      ((read (step mode c).1 cs).1, (step mode c).2 ++ (read (step mode c).1 cs).2) := rfl

theorem read_append (mode : Mode) (xs ys : List Char) :
    read mode (xs ++ ys) =
      ((read (read mode xs).1 ys).1, (read mode xs).2 ++ (read (read mode xs).1 ys).2) := by
  induction xs generalizing mode with
  | nil => rfl
  | cons x xs ih => rw [List.cons_append, read_cons, read_cons, ih, List.append_assoc]

theorem tokens_append {xs ys : List Char} {out : List Token}
    (h : read .start (xs ++ ys) = ((read .start ys).1, out ++ (read .start ys).2)) :
    tokens (xs ++ ys) = (tokens ys).map (out ++ ·) := by
  rw [tokens, h, tokens]
  cases hlast : (read .start ys).1.pending with
  | none => simp [hlast]
  | some more => simp [hlast]

theorem read_space (cs : List Char) : read .start (' ' :: cs) = read .start cs := rfl

theorem read_symbol {c : Char} (hc : c = '(' ∨ c = ')' ∨ c = ',') (cs : List Char) :
    read .start (c :: cs) = ((read .start cs).1, .symbol c :: (read .start cs).2) := by
  rcases hc with rfl | rfl | rfl <;> rfl

def isWord : List Char → Bool
  | [] => false
  | c :: rest => startsWord c && rest.all continuesWord

theorem isSpace_of_startsWord {c : Char} (h : startsWord c = true) : isSpace c = false := by
  simp only [startsWord, isAlpha_eq, Bool.or_eq_true, isUpper_iff, isLower_iff,
    decide_eq_true_eq] at h
  have hcode : 33 ≤ c.toNat := by
    rcases h with ((h | h) | rfl) | h
    · omega
    · omega
    · decide
    · omega
  have hne : c ≠ ' ' := by
    rintro rfl
    revert hcode
    decide
  simp [isSpace, hne]
  omega

private theorem read_word_rest (text : List Char) {rest : List Char}
    (h : ∀ d ∈ rest, continuesWord d = true) :
    read (.word text) rest = (.word (text ++ rest), []) := by
  induction rest generalizing text with
  | nil => simp [read]
  | cons d rest ih =>
    have hstep : step (.word text) d = (.word (text ++ [d]), []) := by
      rw [step, if_pos (h d List.mem_cons_self)]
    rw [read_cons, hstep, ih _ fun e he => h e (List.mem_cons_of_mem _ he)]
    simp

theorem read_word {w : List Char} (h : isWord w = true) {c : Char}
    (hc : c = ' ' ∨ c = '(' ∨ c = ')' ∨ c = ',') (cs : List Char) :
    read .start (w ++ c :: cs) =
      ((read .start (c :: cs)).1, .word w :: (read .start (c :: cs)).2) := by
  cases w with
  | nil => exact absurd h (by decide)
  | cons d rest =>
    rw [isWord, Bool.and_eq_true, List.all_eq_true] at h
    obtain ⟨hd, hrest⟩ := h
    have hspace : isSpace d = false := isSpace_of_startsWord hd
    have hopening : step .start d = (.word [d], []) := by
      rw [step, opening, hspace, hd]
      rfl
    have hend : step (.word (d :: rest)) c = emit [.word (d :: rest)] c := by
      rcases hc with rfl | rfl | rfl | rfl <;> rfl
    rw [List.cons_append, read_cons, hopening, read_append, read_word_rest _ hrest, read_cons,
      read_cons, List.singleton_append]
    dsimp only
    rw [hend]
    rfl

/-- Digits, with a fraction and with a signed exponent, or without them. -/
inductive IsNumeral : List Char → Prop where
  | digits {whole : List Char} : whole ≠ [] → (∀ c ∈ whole, c.isDigit = true) → IsNumeral whole
  | fraction {whole part : List Char} : whole ≠ [] → (∀ c ∈ whole, c.isDigit = true) →
      (∀ c ∈ part, c.isDigit = true) → IsNumeral (whole ++ '.' :: part)
  | exponent {mantissa power : List Char} {sign : Char} : IsNumeral mantissa →
      (∀ c ∈ mantissa, isExponentMark c = false) → sign = '+' ∨ sign = '-' →
      (∀ c ∈ power, c.isDigit = true) → IsNumeral (mantissa ++ 'e' :: sign :: power)

private theorem read_digits (text : List Char) {digits : List Char}
    (h : ∀ c ∈ digits, c.isDigit = true) :
    read (.number text) digits = (.number (text ++ digits), []) := by
  induction digits generalizing text with
  | nil => simp [read]
  | cons d digits ih =>
    have hstep : step (.number text) d = (.number (text ++ [d]), []) := by
      rw [step, if_pos (by simp [continuesNumber, h d List.mem_cons_self])]
    rw [read_cons, hstep, ih _ fun e he => h e (List.mem_cons_of_mem _ he)]
    simp

private theorem startsWord_of_isDigit {c : Char} (h : c.isDigit = true) :
    isSpace c = false ∧ startsWord c = false ∧ c ≠ '.' ∧ isExponentMark c = false := by
  simp only [Char.isDigit, Bool.and_eq_true, decide_eq_true_eq, UInt32.le_iff_toNat_le,
    ge_iff_le] at h
  change 48 ≤ c.toNat ∧ c.toNat ≤ 57 at h
  have hne : ∀ d : Char, d.toNat < 48 ∨ 57 < d.toNat → c ≠ d := by
    rintro d hd rfl
    omega
  have halpha : c.isAlpha = false := by
    rw [Bool.eq_false_iff]
    intro ha
    rw [isAlpha_eq, Bool.or_eq_true, isUpper_iff, isLower_iff] at ha
    omega
  refine ⟨?_, ?_, hne '.' (by decide), ?_⟩
  · simp [isSpace, hne ' ' (by decide)]
    omega
  · simp [startsWord, halpha, hne '_' (by decide)]
    omega
  · simp [isExponentMark, hne 'e' (by decide), hne 'E' (by decide)]

private theorem read_start_digits {digits : List Char} (hne : digits ≠ [])
    (h : ∀ c ∈ digits, c.isDigit = true) : read .start digits = (.number digits, []) := by
  cases digits with
  | nil => exact absurd rfl hne
  | cons d digits =>
    have hd := h d List.mem_cons_self
    obtain ⟨hspace, hword, -⟩ := startsWord_of_isDigit hd
    have hstep : step .start d = (.number [d], []) := by
      rw [step, opening, hspace, hword, hd]
      rfl
    rw [read_cons, hstep, read_digits _ fun c hc => h c (List.mem_cons_of_mem _ hc)]
    rfl

private theorem read_numeral {cs : List Char} (h : IsNumeral cs) :
    read .start cs = (.number cs, []) := by
  induction h with
  | digits hne hwhole => exact read_start_digits hne hwhole
  | @fraction whole part hne hwhole hpart =>
    have hpoint : step (.number whole) '.' = (.number (whole ++ ['.']), []) := by
      have hnone : whole.contains '.' = false := by
        rw [Bool.eq_false_iff]
        intro hmem
        exact (startsWord_of_isDigit (hwhole '.' (by simpa using hmem))).2.2.1 rfl
      have hmark : whole.any isExponentMark = false := by
        rw [List.any_eq_false]
        intro c hc
        simp [(startsWord_of_isDigit (hwhole c hc)).2.2.2]
      rw [step, continuesNumber, hnone, hmark]
      rfl
    rw [read_append, read_start_digits hne hwhole, read_cons, hpoint, read_digits _ hpart]
    simp
  | @exponent mantissa power sign _ hmark hsign hpower ih =>
    have he : step (.number mantissa) 'e' = (.number (mantissa ++ ['e']), []) := by
      have hnone : mantissa.any isExponentMark = false := by
        rw [List.any_eq_false]
        intro c hc
        simp [hmark c hc]
      rw [step, continuesNumber, hnone]
      rfl
    have hs : step (.number (mantissa ++ ['e'])) sign =
        (.number (mantissa ++ ['e'] ++ [sign]), []) := by
      rw [step, continuesNumber, List.getLast?_concat]
      rcases hsign with rfl | rfl <;> simp [isExponentMark]
    rw [read_append, ih, read_cons, he, read_cons, hs, read_digits _ hpower]
    simp

theorem read_number {cs : List Char} (h : IsNumeral cs) {c : Char}
    (hc : c = ' ' ∨ c = '(' ∨ c = ')' ∨ c = ',') (rest : List Char) :
    read .start (cs ++ c :: rest) =
      ((read .start (c :: rest)).1, .number cs :: (read .start (c :: rest)).2) := by
  have hend : step (.number cs) c = emit [.number cs] c := by
    rcases hc with rfl | rfl | rfl | rfl <;> rfl
  rw [read_append, read_numeral h, read_cons, read_cons]
  dsimp only
  rw [hend]
  rfl

/-- A quotation mark in a constant is doubled. -/
def doubled (value : List Char) : List Char :=
  value.flatMap fun c => if c = quoteMark then [c, c] else [c]

def constant (value : List Char) : List Char := [quoteMark] ++ doubled value ++ [quoteMark]

/-- What may stand after a constant so that it ends there: no mark, and no space that another mark
follows. -/
inductive Apart : List Char → Prop where
  | space {c : Char} {rest : List Char} : isSpace c = false → c ≠ quoteMark →
      Apart (' ' :: c :: rest)
  | parenthesis {rest : List Char} : Apart (')' :: rest)
  | comma {rest : List Char} : Apart (',' :: rest)

/-- The marks of a value come in pairs, so none of them ends the constant. -/
theorem read_doubled (text read' value : List Char) :
    read (.quoted .string text read') (doubled value) =
      (.quoted .string (text ++ doubled value) (read' ++ value), []) := by
  induction value generalizing text read' with
  | nil => simp [doubled, read]
  | cons c value ih =>
    rw [doubled, List.flatMap_cons, ← doubled, read_append]
    by_cases hc : c = quoteMark
    · subst hc
      have hpair : read (.quoted .string text read') [quoteMark, quoteMark] =
          (.quoted .string (text ++ [quoteMark, quoteMark]) (read' ++ [quoteMark]), []) := by
        simp [read, step, Quoting.mark]
      rw [if_pos rfl, hpair, ih]
      simp
    · have hone : read (.quoted .string text read') [c] =
          (.quoted .string (text ++ [c]) (read' ++ [c]), []) := by
        simp [read, step, Quoting.mark, hc]
      rw [if_neg hc, hone, ih]
      simp

theorem read_constant (value : List Char) {rest : List Char} (h : Apart rest) :
    read .start (constant value ++ rest) = ((read .start rest).1,
      .quoted .string (constant value) value :: (read .start rest).2) := by
  have hopen : step .start quoteMark = (.quoted .string [quoteMark] [], []) := rfl
  have hclose : step (.quoted .string ([quoteMark] ++ doubled value) value) quoteMark =
      (.closed .string (constant value) value, []) := rfl
  have hread : read .start (constant value) = (.closed .string (constant value) value, []) := by
    conv_lhs => rw [constant, List.append_assoc, List.singleton_append]
    rw [read_cons, hopen, read_append, read_doubled, read_cons, List.nil_append, hclose]
    rfl
  rw [read_append, hread]
  dsimp only
  cases h with
  | @space c rest hspace hmark =>
    -- the space may belong to a constant that goes on, but `c` does not
    have hgap : step (.closed .string (constant value) value) ' ' =
        (.gap .string (constant value) value [' '], []) := rfl
    have hnext : step (.gap .string (constant value) value [' ']) c =
        emit [.quoted .string (constant value) value] c := by
      rw [step, hspace, if_neg (by decide), if_neg (fun hc => hmark hc.1)]
    rw [read_cons, hgap, read_cons, hnext, read_space, read_cons]
    rfl
  | parenthesis => rfl
  | comma => rfl

/-- A piece of a text that is read as these tokens, wherever it stands apart. -/
def Reads (cs : List Char) (out : List Token) : Prop :=
  ∀ rest, Apart rest →
    read .start (cs ++ rest) = ((read .start rest).1, out ++ (read .start rest).2)

theorem reads_constant (value : List Char) :
    Reads (constant value) [.quoted .string (constant value) value] :=
  fun _ h => read_constant value h

theorem Apart.head {rest : List Char} (h : Apart rest) :
    ∃ c more, rest = c :: more ∧ (c = ' ' ∨ c = '(' ∨ c = ')' ∨ c = ',') := by
  cases h with
  | space => exact ⟨_, _, rfl, .inl rfl⟩
  | parenthesis => exact ⟨_, _, rfl, .inr (.inr (.inl rfl))⟩
  | comma => exact ⟨_, _, rfl, .inr (.inr (.inr rfl))⟩

theorem reads_word {w : List Char} (hw : isWord w = true) : Reads w [.word w] := by
  intro rest h
  obtain ⟨c, more, rfl, hc⟩ := h.head
  exact read_word hw hc more

theorem reads_number {cs : List Char} (hcs : IsNumeral cs) : Reads cs [.number cs] := by
  intro rest h
  obtain ⟨c, more, rfl, hc⟩ := h.head
  exact read_number hcs hc more

variable {w cs ds : List Char} {out out' : List Token}

theorem Reads.word_space (hw : isWord w = true) (h : Reads cs out) :
    Reads (w ++ ' ' :: cs) (.word w :: out) := by
  intro rest hrest
  rw [List.append_assoc, List.cons_append, read_word hw (.inl rfl), read_space, h rest hrest]
  rfl

theorem Reads.word_parenthesis (hw : isWord w = true) (h : Reads cs out) :
    Reads (w ++ '(' :: cs) (.word w :: .symbol '(' :: out) := by
  intro rest hrest
  rw [List.append_assoc, List.cons_append, read_word hw (.inr (.inl rfl)), read_symbol (.inl rfl),
    h rest hrest]
  rfl

theorem Reads.parenthesis (h : Reads cs out) : Reads ('(' :: cs) (.symbol '(' :: out) := by
  intro rest hrest
  rw [List.cons_append, read_symbol (.inl rfl), h rest hrest]
  rfl

theorem Reads.closed (h : Reads cs out) : Reads (cs ++ [')']) (out ++ [.symbol ')']) := by
  intro rest _
  rw [List.append_assoc, List.singleton_append, h _ .parenthesis, read_symbol (.inr (.inl rfl)),
    List.append_assoc]
  rfl

theorem Reads.comma (h : Reads cs out) (h' : Reads ds out') :
    Reads (cs ++ [',', ' '] ++ ds) (out ++ [.symbol ','] ++ out') := by
  intro rest hrest
  have hmiddle : cs ++ [',', ' '] ++ ds ++ rest = cs ++ ',' :: ' ' :: (ds ++ rest) := by simp
  rw [hmiddle, h _ .comma, read_symbol (.inr (.inr rfl)), read_space, h' rest hrest]
  simp

theorem reads_nil : Reads [] [] := fun _ _ => rfl

/-- Pieces that are separated by spaces, when no piece starts with a space or a constant. -/
theorem reads_spaced {pieces : List (List Char × List Token)} (hne : pieces ≠ [])
    (h : ∀ p ∈ pieces, Reads p.1 p.2 ∧
      ∃ c more, p.1 = c :: more ∧ isSpace c = false ∧ c ≠ quoteMark) :
    Reads ([' '].intercalate (pieces.map Prod.fst)) (pieces.flatMap Prod.snd) := by
  induction pieces with
  | nil => exact absurd rfl hne
  | cons p pieces ih =>
    cases pieces with
    | nil => simpa using (h p List.mem_cons_self).1
    | cons q pieces =>
      have hq := ih (List.cons_ne_nil _ _) fun r hr => h r (List.mem_cons_of_mem _ hr)
      intro rest hrest
      obtain ⟨c, more, hqc, hspace, hmark⟩ :=
        (h q (List.mem_cons_of_mem _ List.mem_cons_self)).2
      have hapart : Apart ([' '] ++ ([' '].intercalate ((q :: pieces).map Prod.fst) ++ rest)) := by
        cases pieces with
        | nil =>
          rw [List.map_singleton, List.intercalate_singleton, hqc]
          exact .space hspace hmark
        | cons r pieces =>
          rw [List.map_cons, List.map_cons, List.intercalate_cons_cons, hqc]
          exact .space hspace hmark
      rw [List.map_cons, List.map_cons, List.intercalate_cons_cons, ← List.map_cons,
        List.append_assoc, List.append_assoc, (h p List.mem_cons_self).1 _ hapart,
        List.singleton_append, read_space, hq rest hrest]
      simp

end OpenRupiv.Lib.Sql
