import Chtholly.Scanning.Text
import Chtholly.Lexer.Token

/-!
# The lexer

The lexer holds a position in the source.  It skips white space and comments, reads a token, and
starts over, until the position is at the end.  Each loop inside looks at the character ahead, which
is a null character at the end of the source, and moves the position.

The state of the lexer is the position, the tokens and the diagnostics; the functions that read one
token take it and give the next one back.  All of them are total: the loops end because the
characters they step over are none that can be seen at the end.

## Main definitions

* `Lexer.State` — the state of the lexer.
* `Lexer.skipTrivia`, `Lexer.lexDelimited`, `Lexer.lexNumber`, `Lexer.lexToken` — the parts.
* `Lexer.lexTokens`, `Lexer.lex` — the loop, and the whole run.

## Main results

* `Lexer.lexToken_lexes` — what a token takes from the source and leaves in the state.
-/

set_option autoImplicit false

namespace Chtholly

namespace Lexer

open Scanning (advance skipWhile skipUntil slice)

structure State where
  offset : ℕ := 0
  tokens : List Token := []
  diagnostics : List Diagnostic := []
  deriving DecidableEq

/-! ## Characters -/

def isAsciiAlpha (value : Char) : Bool :=
  (decide ('a' ≤ value) && decide (value ≤ 'z')) || (decide ('A' ≤ value) && decide (value ≤ 'Z'))

def isAsciiDigit (value : Char) : Bool := decide ('0' ≤ value) && decide (value ≤ '9')

def isAsciiWhitespace (value : Char) : Bool :=
  value == ' ' || value == '\t' || value == '\n' || value == '\r' || value == '\x0b' ||
    value == '\x0c'

def identifierStart (value : Char) : Bool := isAsciiAlpha value || value == '_'

def identifierContinue (value : Char) : Bool :=
  isAsciiAlpha value || isAsciiDigit value || value == '_'

def digitForBase (value : Char) (base : ℕ) : Bool :=
  if isAsciiDigit value then decide (value.toNat - '0'.toNat < base)
  else if decide ('a' ≤ value) && decide (value ≤ 'f') then base == 16
  else if decide ('A' ≤ value) && decide (value ≤ 'F') then base == 16
  else false

/-- The characters that may follow a backslash. -/
def isEscape (value : Char) : Bool :=
  value == '\\' || value == '"' || value == '\'' || value == '0' || value == 'n' || value == 'r' ||
    value == 't'

namespace State

/-- An offset is cut to thirty-two bits. -/
def emit (state : State) (kind : DiagnosticKind) (offset : ℕ) (length : ℕ := 1) : State :=
  { state with diagnostics := state.diagnostics ++ [⟨kind, offset % 2 ^ 32, length⟩] }

/-- The largest `std::uint16_t`. -/
def maxLength : ℕ := 2 ^ 16 - 1

end State

section

variable (source : Source)

/-- The character ahead, or a later one. -/
def peek (offset : ℕ) (lookahead : ℕ := 0) : Char :=
  Char.ofUInt8 (Scanning.peek source 0 (offset + lookahead))

/-- The loop over the characters with a property that a null character does not have. -/
def skipChars (p : Char → Bool) (hnull : p '\x00' = false) (offset : ℕ) : ℕ :=
  skipWhile source 0 (fun byte => p (Char.ofUInt8 byte)) hnull offset

namespace State

/-- A token goes into the buffer; one that is too long is cut and reported. -/
def add (state : State) (kind : TokenKind) (start length : ℕ) (intern : Bool := false)
    (hasError : Bool := false) : State :=
  if maxLength < length then
    let state := state.emit .tokenTooLong start
    { state with
      tokens := state.tokens ++ [{
        offset := start % 2 ^ 32
        length := maxLength
        kind := kind
        hasError := true
        value := if intern then some (slice source start (start + maxLength)) else none }] }
  else
    { state with
      tokens := state.tokens ++ [{
        offset := start % 2 ^ 32
        length := length
        kind := kind
        hasError := hasError
        value := if intern then some (slice source start (start + length)) else none }] }

end State

variable {source}

/-- What is not a null character is in the source. -/
lemma lt_of_peek {p : Char → Bool} (hnull : p '\x00' = false) {offset : ℕ}
    (h : p (peek source offset) = true) : offset < source.length :=
  @Scanning.lt_of_peek _ source 0 offset (fun byte => p (Char.ofUInt8 byte)) hnull h

lemma lt_of_peek_eq {c : Char} (hc : c ≠ '\x00') {offset : ℕ} (h : peek source offset = c) :
    offset < source.length :=
  @lt_of_peek source (fun value => value == c) (by simpa using hc.symm) offset (by simpa using h)

variable (source)

/-! ## White space and comments -/

/-- The end of a block comment. -/
def closesComment (offset : ℕ) : Bool := peek source offset == '*' && peek source offset 1 == '/'

set_option linter.unusedVariables false in
def skipTrivia (state : State) : State :=
  let offset := skipChars source isAsciiWhitespace rfl state.offset
  if hline : peek source offset = '/' ∧ peek source offset 1 = '/' then
    skipTrivia
      { state with offset := skipUntil source (fun i => peek source i == '\n') offset }
  else if peek source offset = '/' ∧ peek source offset 1 = '*' then
    let inside := advance source (advance source offset)
    let close := skipUntil source (closesComment source) inside
    if hclose : close < source.length then
      skipTrivia { state with offset := advance source (advance source close) }
    else ({ state with offset := close } : State).emit .unterminatedComment offset
  else { state with offset := offset }
termination_by source.length - state.offset
decreasing_by
  · have hle : state.offset ≤ offset := Scanning.le_skipWhile _
    have hlt : offset < source.length := lt_of_peek_eq (by decide) hline.1
    have hstep : offset < skipUntil source (fun i => peek source i == '\n') offset :=
      Scanning.lt_skipUntil hlt (by simp [hline.1])
    show source.length - skipUntil source _ offset < source.length - state.offset
    omega
  · have hle : state.offset ≤ offset := Scanning.le_skipWhile _
    have hinside : offset ≤ inside := Nat.le_trans Scanning.le_advance Scanning.le_advance
    have hstep : inside ≤ close := Scanning.le_skipUntil
    have hpast : close + 1 ≤ advance source (advance source close) := by
      rw [Scanning.advance_of_lt hclose]
      exact Scanning.le_advance
    show source.length - advance source (advance source close) < source.length - state.offset
    omega

/-! ## Literals -/

set_option linter.unusedVariables false in
/-- The loop up to the end of a literal: whether it has met the end of the line, the state, whether
the escapes are valid, and the number of characters. -/
def scanDelimited (delimiter : Char) (state : State) (valid : Bool) (scalarCount : ℕ) :
    Bool × State × Bool × ℕ :=
  if hgo : state.offset < source.length ∧ peek source state.offset ≠ delimiter then
    if peek source state.offset = '\n' ∨ peek source state.offset = '\r' then
      (true, state, valid, scalarCount)
    else if peek source state.offset = '\\' then
      let escape := advance source state.offset
      if escape < source.length then
        let next := { state with offset := advance source escape }
        if isEscape (peek source escape) then
          scanDelimited delimiter next valid (scalarCount + 1)
        else
          scanDelimited delimiter (next.emit .invalidEscape (next.offset - 2) 2) false
            (scalarCount + 1)
      else (false, { state with offset := escape }, valid, scalarCount)
    else
      let length := validUtf8Length source state.offset
      scanDelimited delimiter
        { state with offset := state.offset + if length = 0 then 1 else length } valid
        (scalarCount + 1)
  else (false, state, valid, scalarCount)
termination_by source.length - state.offset
decreasing_by
  · have hstep : state.offset + 1 ≤ advance source (advance source state.offset) := by
      rw [Scanning.advance_of_lt hgo.1]
      exact Scanning.le_advance
    show source.length - advance source (advance source state.offset) < _
    omega
  · have hstep : state.offset + 1 ≤ advance source (advance source state.offset) := by
      rw [Scanning.advance_of_lt hgo.1]
      exact Scanning.le_advance
    show source.length - advance source (advance source state.offset) < _
    omega
  · show source.length - (state.offset + if length = 0 then 1 else length) < _
    split <;> omega

/-- A literal without its end. -/
def addUnterminated (state : State) (start : ℕ) : State :=
  (state.emit .unterminatedLiteral start).add source .invalid start (state.offset - start) false
    true

def lexDelimited (state : State) (start : ℕ) (delimiter : Char) (kind : TokenKind) : State :=
  match scanDelimited source delimiter state true 0 with
  | (true, state, _, _) => addUnterminated source state start
  | (false, state, valid, scalarCount) =>
    if source.length ≤ state.offset then addUnterminated source state start
    else
      let state := { state with offset := advance source state.offset }
      if kind = .charLiteral ∧ scalarCount ≠ 1 then
        (state.emit .invalidCharLiteral start).add source kind start (state.offset - start) false
          true
      else state.add source kind start (state.offset - start) false (!valid)

/-! ## Numbers -/

set_option linter.unusedVariables false in
/-- The digits of a base, which separators may stand between: whether they are well formed, and the
position after them. -/
def lexDigitSequence (base offset : ℕ) (sawDigit : Bool := false)
    (previousSeparator : Bool := false) : Bool × ℕ :=
  if hdigit : (digitForBase (peek source offset) base || peek source offset == '_') = true then
    if peek source offset = '_' then
      if !sawDigit || previousSeparator then (false, advance source offset)
      else lexDigitSequence base (advance source offset) sawDigit true
    else lexDigitSequence base (advance source offset) true false
  else (sawDigit && !previousSeparator, offset)
termination_by source.length - offset
decreasing_by
  all_goals
    have hlt : offset < source.length :=
      @lt_of_peek source (fun value => digitForBase value base || value == '_') rfl offset hdigit
    rw [Scanning.advance_of_lt hlt]
    omega

set_option linter.unusedVariables false in
/-- The digits before the point of a decimal number; its first digit has been read. -/
def lexDecimalDigits (offset : ℕ) (valid : Bool := true) (previousSeparator : Bool := false) :
    Bool × ℕ :=
  if hdigit : (isAsciiDigit (peek source offset) || peek source offset == '_') = true then
    if peek source offset = '_' then
      lexDecimalDigits (advance source offset) (valid && !previousSeparator) true
    else lexDecimalDigits (advance source offset) valid false
  else (valid && !previousSeparator, offset)
termination_by source.length - offset
decreasing_by
  all_goals
    have hlt : offset < source.length :=
      @lt_of_peek source (fun value => isAsciiDigit value || value == '_') rfl offset hdigit
    rw [Scanning.advance_of_lt hlt]
    omega

/-- What has been read of a number. -/
structure NumberScan where
  kind : TokenKind := .integerLiteral
  valid : Bool
  base : ℕ := 10
  offset : ℕ

/-- `peek() == '.' && peek(1) != '.'`: the point of a number, not of a range. -/
def scanFraction (scan : NumberScan) : NumberScan :=
  if peek source scan.offset = '.' ∧ peek source scan.offset 1 ≠ '.' then
    let (valid, offset) := lexDigitSequence source 10 (advance source scan.offset)
    { scan with kind := .floatLiteral, valid := scan.valid && valid, offset := offset }
  else scan

def scanExponent (scan : NumberScan) : NumberScan :=
  if peek source scan.offset = 'e' ∨ peek source scan.offset = 'E' then
    let sign := advance source scan.offset
    let digits :=
      if peek source sign = '+' ∨ peek source sign = '-' then advance source sign else sign
    let (valid, offset) := lexDigitSequence source 10 digits
    { scan with kind := .floatLiteral, valid := scan.valid && valid, offset := offset }
  else scan

/-- The number up to its suffix.  After a point the digits are the index of a tuple member, and what
follows them is not a fraction. -/
def scanNumber (offset : ℕ) (first : Char) (postfixMemberIndex : Bool) : NumberScan :=
  let mark := peek source offset
  if first = '0' ∧ mark ∈ ['b', 'B', 'o', 'O', 'x', 'X'] then
    let base := if mark = 'b' ∨ mark = 'B' then 2 else if mark = 'o' ∨ mark = 'O' then 8 else 16
    let (valid, offset) := lexDigitSequence source base (advance source offset)
    { valid := valid, base := base, offset := offset }
  else
    let (valid, offset) := lexDecimalDigits source offset
    let scan : NumberScan := { valid := valid, offset := offset }
    if postfixMemberIndex then scan else scanExponent source (scanFraction source scan)

def integerSuffixes : List String :=
  ["i8", "i16", "i32", "i64", "isize", "u8", "u16", "u32", "u64", "usize"]

def floatSuffixes : List String := ["f32", "f64"]

/-- A suffix has to fit the kind; that of a float makes a float. -/
def checkSuffix (scan : NumberScan) (suffix : List Char) : NumberScan :=
  if suffix = [] then scan
  else
    let floatSuffix := decide (suffix ∈ floatSuffixes.map String.toList)
    let integerSuffix := decide (suffix ∈ integerSuffixes.map String.toList)
    let kind := if floatSuffix then .floatLiteral else scan.kind
    { scan with
      kind := kind
      valid := scan.valid &&
        ((kind == .integerLiteral && integerSuffix) || (kind == .floatLiteral && floatSuffix)) }

def lexNumber (state : State) (start : ℕ) (first : Char) : State :=
  let postfixMemberIndex := state.tokens.getLast?.any fun token => token.kind == .dot
  let scan := scanNumber source state.offset first postfixMemberIndex
  let suffixEnd := skipChars source identifierContinue rfl scan.offset
  let scan := checkSuffix scan (asText (slice source scan.offset suffixEnd))
  let valid := scan.valid && !(scan.base != 10 && scan.kind == .floatLiteral)
  let state := { state with offset := suffixEnd }
  let state := if valid then state else state.emit .invalidNumericLiteral start
  state.add source scan.kind start (state.offset - start) false (!valid)

/-! ## Operators -/

/-- `match(expected) ? yes : no`. -/
def matchOr (expected : Char) (offset : ℕ) (yes no : TokenKind) : TokenKind × ℕ :=
  if peek source offset = expected then (yes, offset + 1) else (no, offset)

/-- The `switch` over the first character of an operator, with the position behind it. -/
def lexOperator (value : Char) (offset : ℕ) : TokenKind × ℕ :=
  match value with
  | '(' => (.lParen, offset)
  | ')' => (.rParen, offset)
  | '\x7b' => (.lBrace, offset)
  | '\x7d' => (.rBrace, offset)
  | '[' => (.lBracket, offset)
  | ']' => (.rBracket, offset)
  | ',' => (.comma, offset)
  | ':' => matchOr source ':' offset .scope .colon
  | '.' =>
    if peek source offset = '.' then matchOr source '.' (offset + 1) .dotDotDot .dotDot
    else (.dot, offset)
  | ';' => (.semicolon, offset)
  | '?' => (.question, offset)
  | '+' => matchOr source '=' offset .plusEqual .plus
  | '-' => matchOr source '=' offset .minusEqual .minus
  | '*' => matchOr source '=' offset .starEqual .star
  | '/' => matchOr source '=' offset .slashEqual .slash
  | '%' => matchOr source '=' offset .percentEqual .percent
  | '!' => matchOr source '=' offset .bangEqual .bang
  | '=' =>
    if peek source offset = '>' then (.fatArrow, offset + 1)
    else matchOr source '=' offset .equalEqual .equal
  | '<' =>
    if peek source offset = '<' then matchOr source '=' (offset + 1) .lessLessEqual .lessLess
    else if peek source offset = '=' ∧ peek source offset 1 = '>' then
      (.spaceship, advance source (advance source offset))
    else matchOr source '=' offset .lessEqual .less
  | '>' =>
    if peek source offset = '>' then
      matchOr source '=' (offset + 1) .greaterGreaterEqual .greaterGreater
    else matchOr source '=' offset .greaterEqual .greater
  | '&' =>
    if peek source offset = '&' then (.ampAmp, offset + 1)
    else matchOr source '=' offset .ampEqual .amp
  | '|' =>
    if peek source offset = '|' then (.pipePipe, offset + 1)
    else matchOr source '=' offset .pipeEqual .pipe
  | '^' => matchOr source '=' offset .caretEqual .caret
  | '~' => (.tilde, offset)
  | _ => (.invalid, offset)

/-! ## Tokens -/

def lexToken (state : State) : State :=
  let start := state.offset
  let value := peek source start
  let state := { state with offset := advance source start }
  if value = 'c' ∧ peek source state.offset = '"' then
    lexDelimited source { state with offset := advance source state.offset } start '"'
      .cStringLiteral
  else if identifierStart value then
    let state := { state with
      offset := skipChars source identifierContinue rfl state.offset }
    let kind := keywordKind (slice source start state.offset)
    state.add source kind start (state.offset - start) (kind == .identifier || kind == .kwCopy)
  else if isAsciiDigit value then lexNumber source state start value
  else if value = '"' then lexDelimited source state start '"' .stringLiteral
  else if value = '\'' then lexDelimited source state start '\'' .charLiteral
  else if 0x80 ≤ value.toNat then
    let length := validUtf8Length source start
    let state := { state with offset := start + if length = 0 then 1 else length }
    (state.emit .nonAsciiIdentifier start (state.offset - start)).add source .invalid start
      (state.offset - start) false true
  else
    let (kind, offset) := lexOperator source value state.offset
    let state := { state with offset := offset }
    if kind = .invalid then
      (state.emit .unexpectedCharacter start).add source kind start (state.offset - start) false
        true
    else state.add source kind start (state.offset - start)

/-- The loop of `validateUtf8`. -/
def validateUtf8 (state : State) (index : ℕ) : State :=
  if index < source.length then
    let length := validUtf8Length source index
    if length = 0 then validateUtf8 (state.emit .invalidUtf8 index) (index + 1)
    else validateUtf8 state (index + length)
  else state
termination_by source.length - index
decreasing_by
  all_goals omega

end

/-! ## What is taken from the source -/

lemma validUtf8Length_le {source : Source} {offset : ℕ} (h : offset < source.length) :
    offset + validUtf8Length source offset ≤ source.length := by
  by_cases hn : validUtf8Length source offset = 0
  · omega
  · obtain ⟨c, hprefix, hlength⟩ := (validUtf8Length_eq_iff h hn).mp rfl
    have hle := hprefix.length_le
    rw [List.length_drop] at hle
    omega

/-- The position has moved on within the source, and nothing has been added to the tokens. -/
structure Moves (source : Source) (state next : State) : Prop where
  tokens : next.tokens = state.tokens
  le : state.offset ≤ next.offset
  within : next.offset ≤ source.length
  diagnostics : state.diagnostics <+: next.diagnostics

/-- One token has been added, for what lies between the two positions. -/
structure Lexes (source : Source) (state next : State) : Prop where
  lt : state.offset < next.offset
  within : next.offset ≤ source.length
  diagnostics : state.diagnostics <+: next.diagnostics
  token : ∃ token : Token, next.tokens = state.tokens ++ [token] ∧ token.kind ≠ .endOfFile ∧
    token.offset = state.offset % 2 ^ 32 ∧
    token.length = min (next.offset - state.offset) State.maxLength ∧
    ∀ text ∈ token.value, text = slice source state.offset (state.offset + token.length)
  exact : next.diagnostics = state.diagnostics → next.offset - state.offset ≤ State.maxLength

namespace Moves

variable {source : Source} {state next last : State}

lemma refl (h : state.offset ≤ source.length) : Moves source state state :=
  ⟨rfl, le_rfl, h, List.prefix_refl _⟩

lemma trans (h : Moves source state next) (h' : Moves source next last) :
    Moves source state last where
  tokens := h'.tokens.trans h.tokens
  le := h.le.trans h'.le
  within := h'.within
  diagnostics := h.diagnostics.trans h'.diagnostics

lemma jump {offset : ℕ} (hle : state.offset ≤ offset) (h : offset ≤ source.length) :
    Moves source state { state with offset := offset } :=
  ⟨rfl, hle, h, List.prefix_refl _⟩

lemma emit {kind : DiagnosticKind} {offset length : ℕ} (h : Moves source state next) :
    Moves source state (next.emit kind offset length) where
  tokens := h.tokens
  le := h.le
  within := h.within
  diagnostics := h.diagnostics.trans (List.prefix_append _ _)

/-- A token is added for what has been passed. -/
lemma add {kind : TokenKind} {intern hasError : Bool} (h : Moves source state next)
    (hlt : state.offset < next.offset) (hkind : kind ≠ .endOfFile) :
    Lexes source state (next.add source kind state.offset (next.offset - state.offset) intern
      hasError) := by
  unfold State.add
  split
  · rename_i hlong
    refine ⟨hlt, h.within, h.diagnostics.trans (List.prefix_append _ _), ?_, ?_⟩
    · refine ⟨_, by rw [← h.tokens]; rfl, hkind, rfl, ?_, ?_⟩
      · show State.maxLength = min (next.offset - state.offset) State.maxLength
        omega
      · intro text htext
        cases intern with
        | true => simpa [eq_comm] using htext
        | false => simp at htext
    · intro hsame
      have hlength := congrArg List.length hsame
      have hle := h.diagnostics.length_le
      simp only [State.emit, List.length_append, List.length_singleton] at hlength
      omega
  · rename_i hshort
    refine ⟨hlt, h.within, h.diagnostics, ?_, ?_⟩
    · refine ⟨_, by rw [← h.tokens], hkind, rfl, ?_, ?_⟩
      · show next.offset - state.offset = min (next.offset - state.offset) State.maxLength
        omega
      · intro text htext
        cases intern with
        | true => simpa [eq_comm] using htext
        | false => simp at htext
    · intro _
      show next.offset - state.offset ≤ State.maxLength
      omega

end Moves

section

variable {source : Source}

/-! ### Literals -/

lemma scanDelimited_moves {delimiter : Char} {state : State} {valid : Bool} {scalarCount : ℕ}
    (h : state.offset ≤ source.length) :
    Moves source state (scanDelimited source delimiter state valid scalarCount).2.1 := by
  fun_induction scanDelimited source delimiter state valid scalarCount with
  | case1 state valid scalarCount hgo hline => exact Moves.refl h
  | case2 state valid scalarCount hgo hline hescape escape hlt next hvalid ih =>
    have hle : state.offset ≤ next.offset := Nat.le_trans Scanning.le_advance Scanning.le_advance
    have hwithin : next.offset ≤ source.length := Scanning.advance_le hlt.le
    exact (Moves.jump hle hwithin).trans (ih hwithin)
  | case3 state valid scalarCount hgo hline hescape escape hlt next hvalid ih =>
    have hle : state.offset ≤ next.offset := Nat.le_trans Scanning.le_advance Scanning.le_advance
    have hwithin : next.offset ≤ source.length := Scanning.advance_le hlt.le
    exact (Moves.jump hle hwithin).emit.trans (ih hwithin)
  | case4 state valid scalarCount hgo hline hescape escape hend =>
    exact Moves.jump Scanning.le_advance (Scanning.advance_le h)
  | case5 state valid scalarCount hgo hline hescape length ih =>
    have hlength := validUtf8Length_le hgo.1
    have hwithin : (state.offset + if length = 0 then 1 else length) ≤ source.length := by
      have hlt := hgo.1
      split <;> omega
    exact (Moves.jump (Nat.le_add_right _ _) hwithin).trans (ih hwithin)
  | case6 state valid scalarCount hgo => exact Moves.refl h

lemma lexDelimited_lexes {state next : State} {delimiter : Char} {kind : TokenKind}
    (h : Moves source state next) (hlt : state.offset < next.offset) (hkind : kind ≠ .endOfFile) :
    Lexes source state (lexDelimited source next state.offset delimiter kind) := by
  have hscan := @scanDelimited_moves source delimiter next true 0 h.within
  have hmoves := h.trans hscan
  have hstrict := lt_of_lt_of_le hlt hscan.le
  unfold lexDelimited
  split
  · rename_i last valid scalarCount heq
    rw [heq] at hmoves hstrict
    exact hmoves.emit.add hstrict (by simp)
  · rename_i last valid scalarCount heq
    rw [heq] at hmoves hstrict
    split
    · exact hmoves.emit.add hstrict (by simp)
    · have hpast := hmoves.trans
        (Moves.jump Scanning.le_advance (Scanning.advance_le hmoves.within))
      have hstrict' := lt_of_lt_of_le hstrict (@Scanning.le_advance _ source last.offset)
      simp only
      split
      · exact hpast.emit.add hstrict' hkind
      · exact hpast.add hstrict' hkind

/-! ### Numbers -/

lemma skipChars_within {p : Char → Bool} (hnull : p '\x00' = false) {offset : ℕ}
    (h : offset ≤ source.length) :
    offset ≤ skipChars source p hnull offset ∧ skipChars source p hnull offset ≤ source.length := by
  obtain ⟨hle, hend, -, -⟩ :=
    @Scanning.skipWhile_spec _ source 0 offset (fun byte => p (Char.ofUInt8 byte)) hnull h
  exact ⟨hle, hend⟩

lemma lexDigitSequence_within {base offset : ℕ} {sawDigit previousSeparator : Bool}
    (h : offset ≤ source.length) :
    offset ≤ (lexDigitSequence source base offset sawDigit previousSeparator).2 ∧
      (lexDigitSequence source base offset sawDigit previousSeparator).2 ≤ source.length := by
  fun_induction lexDigitSequence source base offset sawDigit previousSeparator with
  | case1 offset sawDigit previousSeparator hdigit hmark hbad =>
    exact ⟨Scanning.le_advance, Scanning.advance_le h⟩
  | case2 offset sawDigit previousSeparator hdigit hmark hgood ih =>
    obtain ⟨hle, hwithin⟩ := ih (Scanning.advance_le h)
    exact ⟨Nat.le_trans Scanning.le_advance hle, hwithin⟩
  | case3 offset sawDigit previousSeparator hdigit hmark ih =>
    obtain ⟨hle, hwithin⟩ := ih (Scanning.advance_le h)
    exact ⟨Nat.le_trans Scanning.le_advance hle, hwithin⟩
  | case4 offset sawDigit previousSeparator hdigit => exact ⟨le_rfl, h⟩

lemma lexDecimalDigits_within {offset : ℕ} {valid previousSeparator : Bool}
    (h : offset ≤ source.length) :
    offset ≤ (lexDecimalDigits source offset valid previousSeparator).2 ∧
      (lexDecimalDigits source offset valid previousSeparator).2 ≤ source.length := by
  fun_induction lexDecimalDigits source offset valid previousSeparator with
  | case1 offset valid previousSeparator hdigit hmark ih =>
    obtain ⟨hle, hwithin⟩ := ih (Scanning.advance_le h)
    exact ⟨Nat.le_trans Scanning.le_advance hle, hwithin⟩
  | case2 offset valid previousSeparator hdigit hmark ih =>
    obtain ⟨hle, hwithin⟩ := ih (Scanning.advance_le h)
    exact ⟨Nat.le_trans Scanning.le_advance hle, hwithin⟩
  | case3 offset valid previousSeparator hdigit => exact ⟨le_rfl, h⟩

/-- A number has moved on within the source, and it is an integer or a float. -/
structure Numbers (source : Source) (offset : ℕ) (scan : NumberScan) : Prop where
  le : offset ≤ scan.offset
  within : scan.offset ≤ source.length
  kind : scan.kind = .integerLiteral ∨ scan.kind = .floatLiteral

lemma numbers_scanFraction {offset : ℕ} {scan : NumberScan} (h : Numbers source offset scan) :
    Numbers source offset (scanFraction source scan) := by
  unfold scanFraction
  split
  · obtain ⟨hle, hwithin⟩ := @lexDigitSequence_within source 10 (advance source scan.offset) false
      false (Scanning.advance_le h.within)
    exact ⟨h.le.trans (Nat.le_trans Scanning.le_advance hle), hwithin, Or.inr rfl⟩
  · exact h

lemma numbers_scanExponent {offset : ℕ} {scan : NumberScan} (h : Numbers source offset scan) :
    Numbers source offset (scanExponent source scan) := by
  unfold scanExponent
  split
  · extract_lets sign digits
    have hsign : sign ≤ source.length := Scanning.advance_le h.within
    have hdigits : scan.offset ≤ digits ∧ digits ≤ source.length := by
      simp only [digits, sign]
      split
      · exact ⟨Nat.le_trans Scanning.le_advance Scanning.le_advance, Scanning.advance_le hsign⟩
      · exact ⟨Scanning.le_advance, hsign⟩
    obtain ⟨hle, hwithin⟩ := @lexDigitSequence_within source 10 digits false false hdigits.2
    exact ⟨h.le.trans (hdigits.1.trans hle), hwithin, Or.inr rfl⟩
  · exact h

lemma numbers_scanNumber {offset : ℕ} {first : Char} {postfixMemberIndex : Bool}
    (h : offset ≤ source.length) :
    Numbers source offset (scanNumber source offset first postfixMemberIndex) := by
  unfold scanNumber
  extract_lets mark
  split
  · rename_i base hprefix
    obtain ⟨hle, hwithin⟩ := @lexDigitSequence_within source base (advance source offset) false
      false (Scanning.advance_le h)
    exact ⟨Nat.le_trans Scanning.le_advance hle, hwithin, Or.inl rfl⟩
  · have hdecimal : Numbers source offset
        { valid := (lexDecimalDigits source offset).1
          offset := (lexDecimalDigits source offset).2 } := by
      obtain ⟨hle, hwithin⟩ := @lexDecimalDigits_within source offset true false h
      exact ⟨hle, hwithin, Or.inl rfl⟩
    cases postfixMemberIndex with
    | true => exact hdecimal
    | false => exact numbers_scanExponent (numbers_scanFraction hdecimal)

lemma checkSuffix_kind {scan : NumberScan} {suffix : List Char}
    (h : scan.kind = .integerLiteral ∨ scan.kind = .floatLiteral) :
    (checkSuffix scan suffix).kind = .integerLiteral ∨
      (checkSuffix scan suffix).kind = .floatLiteral := by
  unfold checkSuffix
  split
  · exact h
  · simp only
    split
    · exact Or.inr rfl
    · exact h

lemma lexNumber_lexes {state next : State} {first : Char} (h : Moves source state next)
    (hlt : state.offset < next.offset) :
    Lexes source state (lexNumber source next state.offset first) := by
  unfold lexNumber
  extract_lets postfixMemberIndex scan suffixEnd scan' valid last last'
  have hnumber : Numbers source next.offset scan := numbers_scanNumber h.within
  have hsuffix : scan.offset ≤ suffixEnd ∧ suffixEnd ≤ source.length :=
    skipChars_within rfl hnumber.within
  have hlast : Moves source state last :=
    h.trans (Moves.jump (hnumber.le.trans hsuffix.1) hsuffix.2)
  have hstrict : state.offset < last.offset :=
    lt_of_lt_of_le hlt (hnumber.le.trans hsuffix.1)
  have hkind : scan'.kind ≠ .endOfFile := by
    have hcases : scan'.kind = .integerLiteral ∨ scan'.kind = .floatLiteral :=
      checkSuffix_kind hnumber.kind
    obtain hkind | hkind := hcases
    · simp [hkind]
    · simp [hkind]
  have hreported : Moves source state last' ∧ last'.offset = last.offset := by
    simp only [last']
    split
    · exact ⟨hlast, rfl⟩
    · exact ⟨hlast.emit, rfl⟩
  exact hreported.1.add (by rw [hreported.2]; exact hstrict) hkind

/-! ### Operators -/

/-- An operator has moved on within the source, and it is not the end of the file. -/
def Operates (source : Source) (offset : ℕ) (result : TokenKind × ℕ) : Prop :=
  offset ≤ result.2 ∧ result.2 ≤ source.length ∧ result.1 ≠ .endOfFile

lemma operates_here {offset : ℕ} {kind : TokenKind} (h : offset ≤ source.length)
    (hkind : kind ≠ .endOfFile) : Operates source offset (kind, offset) :=
  ⟨le_rfl, h, hkind⟩

/-- A character that has been seen ahead is part of the operator. -/
lemma operates_next {offset : ℕ} {kind : TokenKind} {second : Char} (hsecond : second ≠ '\x00')
    (hpeek : peek source offset = second) (hkind : kind ≠ .endOfFile) :
    Operates source offset (kind, offset + 1) :=
  ⟨Nat.le_succ _, lt_of_peek_eq hsecond hpeek, hkind⟩

lemma operates_matchOr {expected : Char} {offset : ℕ} {yes no : TokenKind}
    (h : offset ≤ source.length) (hexpected : expected ≠ '\x00') (hyes : yes ≠ .endOfFile)
    (hno : no ≠ .endOfFile) : Operates source offset (matchOr source expected offset yes no) := by
  unfold matchOr
  split
  · rename_i hpeek
    exact operates_next hexpected hpeek hyes
  · exact operates_here h hno

/-- A character that has been seen ahead, and then a choice by the one after it. -/
lemma operates_then_matchOr {second expected : Char} {offset : ℕ} {yes no : TokenKind}
    (hsecond : second ≠ '\x00') (hpeek : peek source offset = second)
    (hexpected : expected ≠ '\x00') (hyes : yes ≠ .endOfFile) (hno : no ≠ .endOfFile) :
    Operates source offset (matchOr source expected (offset + 1) yes no) := by
  obtain ⟨hle, hwithin, hkind⟩ :=
    operates_matchOr (lt_of_peek_eq hsecond hpeek) hexpected hyes hno
  exact ⟨(Nat.le_succ offset).trans hle, hwithin, hkind⟩

lemma lexOperator_operates {value : Char} {offset : ℕ} (h : offset ≤ source.length) :
    Operates source offset (lexOperator source value offset) := by
  unfold lexOperator
  split
  -- the branches that do not look at a second character before they choose
  all_goals first
    | exact operates_here h (by decide)
    | exact operates_matchOr h (by decide) (by decide) (by decide)
    | split
  all_goals first
    | exact operates_here h (by decide)
    | (refine operates_next ?_ (by assumption) ?_ <;> decide)
    | (refine operates_then_matchOr ?_ (by assumption) ?_ ?_ ?_ <;> decide)
    | exact operates_matchOr h (by decide) (by decide) (by decide)
    | split
  · exact ⟨Nat.le_trans Scanning.le_advance Scanning.le_advance,
      Scanning.advance_le (Scanning.advance_le h), by simp⟩
  · exact operates_matchOr h (by decide) (by decide) (by decide)

/-! ### One token -/

/-- Where the source has not ended, the lexer reads one token. -/
theorem lexToken_lexes {state : State} (h : state.offset < source.length) :
    Lexes source state (lexToken source state) := by
  have hfirst : Moves source state { state with offset := advance source state.offset } :=
    Moves.jump Scanning.le_advance (Scanning.advance_le h.le)
  have hstep : state.offset < advance source state.offset := by
    rw [Scanning.advance_of_lt h]
    omega
  unfold lexToken
  extract_lets start value next
  split
  · -- the prefix and the quote of a C string
    have hquote : Moves source state { next with offset := advance source next.offset } :=
      hfirst.trans (Moves.jump Scanning.le_advance (Scanning.advance_le hfirst.within))
    exact lexDelimited_lexes hquote (lt_of_lt_of_le hstep Scanning.le_advance) (by simp)
  split
  · have hword : next.offset ≤ skipChars source identifierContinue rfl next.offset ∧
        skipChars source identifierContinue rfl next.offset ≤ source.length :=
      skipChars_within rfl hfirst.within
    exact (hfirst.trans (Moves.jump hword.1 hword.2)).add (lt_of_lt_of_le hstep hword.1)
      (keywordKind_ne _)
  split
  · exact lexNumber_lexes hfirst hstep
  split
  · exact lexDelimited_lexes hfirst hstep (by simp)
  split
  · exact lexDelimited_lexes hfirst hstep (by simp)
  split
  · have hlength := validUtf8Length_le h
    have hpast : state.offset < start + (if validUtf8Length source start = 0 then 1
        else validUtf8Length source start) ∧
        start + (if validUtf8Length source start = 0 then 1
          else validUtf8Length source start) ≤ source.length := by
      simp only [start]
      split <;> omega
    exact (Moves.jump hpast.1.le hpast.2).emit.add hpast.1 (by simp)
  · obtain ⟨hle, hwithin, hkind⟩ := @lexOperator_operates source value next.offset hfirst.within
    have hoperator := hfirst.trans (Moves.jump hle hwithin)
    have hstrict := lt_of_lt_of_le hstep hle
    simp only
    split
    · exact hoperator.emit.add hstrict hkind
    · exact hoperator.add hstrict hkind

/-! ### The loop -/

lemma skipTrivia_moves {state : State} (h : state.offset ≤ source.length) :
    Moves source state (skipTrivia source state) := by
  fun_induction skipTrivia source state with
  | case1 state offset hline ih =>
    have hspace : state.offset ≤ offset ∧ offset ≤ source.length := skipChars_within rfl h
    obtain ⟨hle, hwithin, -⟩ :=
      @Scanning.skipUntil_spec _ source (fun i => peek source i == '\n') offset hspace.2
    exact (Moves.jump (hspace.1.trans hle) hwithin).trans (ih hwithin)
  | case2 state offset hline hopen inside close hclose ih =>
    have hspace : state.offset ≤ offset ∧ offset ≤ source.length := skipChars_within rfl h
    have hinside : offset ≤ inside := Nat.le_trans Scanning.le_advance Scanning.le_advance
    have hstep : inside ≤ close := Scanning.le_skipUntil
    have hpast : close ≤ advance source (advance source close) :=
      Nat.le_trans Scanning.le_advance Scanning.le_advance
    have hwithin : advance source (advance source close) ≤ source.length :=
      Scanning.advance_le (Scanning.advance_le hclose.le)
    exact (Moves.jump (by omega) hwithin).trans (ih hwithin)
  | case3 state offset hline hopen inside close hclose =>
    have hspace : state.offset ≤ offset ∧ offset ≤ source.length := skipChars_within rfl h
    have hinside : offset ≤ inside := Nat.le_trans Scanning.le_advance Scanning.le_advance
    obtain ⟨hle, hwithin, -⟩ := @Scanning.skipUntil_spec _ source (closesComment source) inside
      (Scanning.advance_le (Scanning.advance_le hspace.2))
    exact (Moves.jump (hspace.1.trans (hinside.trans hle)) hwithin).emit
  | case4 state offset hline hopen =>
    have hspace : state.offset ≤ offset ∧ offset ≤ source.length := skipChars_within rfl h
    exact Moves.jump hspace.1 hspace.2

end

variable (source : Source)

set_option linter.unusedVariables false in
/-- The loop of `run`. -/
def lexTokens (state : State) : State :=
  if hgo : state.offset < source.length then
    let next := skipTrivia source state
    if hlt : next.offset < source.length then lexTokens (lexToken source next) else next
  else state
termination_by source.length - state.offset
decreasing_by
  have hle : state.offset ≤ next.offset := (skipTrivia_moves hgo.le).le
  have hstep : next.offset < (lexToken source next).offset := (lexToken_lexes hlt).lt
  show source.length - (lexToken source next).offset < source.length - state.offset
  omega

/-- `Lexer::run`. -/
def lex : State :=
  if 2 ^ 32 - 1 < source.length then
    (({} : State).emit .sourceTooLarge 0).add source .endOfFile 0 0
  else
    let state := lexTokens source (validateUtf8 source {} 0)
    state.add source .endOfFile state.offset 0

end Lexer

end Chtholly
