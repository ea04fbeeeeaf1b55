import Chtholly.Lexer.Tokenize
import Mathlib.Data.List.Pairwise

/-!
# The tokens and the source

A token stands for the bytes of its span.  The spans of the tokens of a run follow one another, the
last one is the empty span of the end of the file, and what lies between two of them is white space
and comments, as long as nothing has been reported.  So nothing of the source is lost.

A comment that begins with two slashes goes up to the end of its line, one that begins with a slash
and a star up to the first star and slash.

## Main definitions

* `Lexer.Comment`, `Lexer.Trivia` — what may be skipped.
* `Lexer.Ordered` — spans that follow one another.
* `Lexer.Separated`, `Lexer.respell` — what lies between the tokens, and the text put together.

## Main results

* `Lexer.lexTokens_spans` — what the loop adds to a state.
* `Lexer.lex_faithful` — the run over any source.
-/

set_option autoImplicit false

namespace Chtholly

namespace Lexer

open Scanning (advance skipUntil slice)

variable (source : Source)

/-! ## White space and comments -/

/-- The comments from one position to another. -/
inductive Comment : ℕ → ℕ → Prop
  /-- Two slashes, and no end of line before the stop, which is one, or the end of the source. -/
  | line {start stop : ℕ} (hopen : peek source start = '/' ∧ peek source (start + 1) = '/')
      (hlong : start + 2 ≤ stop) (hwithin : stop ≤ source.length)
      (hinside : ∀ i, start + 2 ≤ i → i < stop → peek source i ≠ '\n')
      (hend : stop = source.length ∨ peek source stop = '\n') : Comment start stop
  /-- A slash and a star, and the first star and slash after them. -/
  | block {start close : ℕ} (hopen : peek source start = '/' ∧ peek source (start + 1) = '*')
      (hlong : start + 2 ≤ close)
      (hinside : ∀ i, start + 2 ≤ i → i < close → closesComment source i = false)
      (hclose : closesComment source close = true) : Comment start (close + 2)

/-- White space and comments from one position to another. -/
inductive Trivia : ℕ → ℕ → Prop
  | done {offset : ℕ} : Trivia offset offset
  | whitespace {start stop : ℕ} (hspace : isAsciiWhitespace (peek source start) = true)
      (rest : Trivia (start + 1) stop) : Trivia start stop
  | comment {start middle stop : ℕ} (hcomment : Comment source start middle)
      (rest : Trivia middle stop) : Trivia start stop

/-- A byte of white space, or one of a comment. -/
def Skipped (offset : ℕ) : Prop :=
  isAsciiWhitespace (peek source offset) = true ∨
    ∃ start stop, Comment source start stop ∧ start ≤ offset ∧ offset < stop

/-! ## Spans -/

/-- Spans that follow one another from a position on, none of them empty and none past the limit. -/
def Ordered (limit : ℕ) : ℕ → List Token → Prop
  | _, [] => True
  | start, token :: tokens =>
    start ≤ token.offset ∧ 0 < token.length ∧ token.finish ≤ limit ∧
      Ordered limit token.finish tokens

/-- White space and comments before each of the tokens. -/
def Separated : ℕ → List Token → Prop
  | _, [] => True
  | start, token :: tokens =>
    Trivia source start token.offset ∧ Separated token.finish tokens

/-- The text of the tokens, each with what lies before it. -/
def respell : ℕ → List Token → Source
  | _, [] => []
  | start, token :: tokens =>
    slice source start token.offset ++ token.text source ++ respell token.finish tokens

/-- The end of the file, as a token. -/
def endToken : Token := { offset := source.length, length := 0, kind := .endOfFile }

variable {source}

namespace Trivia

lemma trans {start middle stop : ℕ} (h : Trivia source start middle)
    (h' : Trivia source middle stop) : Trivia source start stop := by
  induction h with
  | done => exact h'
  | whitespace hspace rest ih => exact .whitespace hspace (ih h')
  | comment hcomment rest ih => exact .comment hcomment (ih h')

/-- What lies in white space and comments is white space, or it lies in a comment. -/
lemma skipped {start stop : ℕ} (h : Trivia source start stop) {offset : ℕ} (hle : start ≤ offset)
    (hlt : offset < stop) : Skipped source offset := by
  induction h with
  | done => omega
  | @whitespace start stop hspace rest ih =>
    obtain rfl | hne := eq_or_ne offset start
    · exact Or.inl hspace
    · exact ih (by omega) hlt
  | @comment start middle stop hcomment rest ih =>
    by_cases hinside : offset < middle
    · exact Or.inr ⟨start, middle, hcomment, hle, hinside⟩
    · exact ih (by omega) hlt

/-- A stretch of white space. -/
lemma of_whitespace {start stop : ℕ} (hle : start ≤ stop)
    (h : ∀ i, start ≤ i → i < stop → isAsciiWhitespace (peek source i) = true) :
    Trivia source start stop := by
  induction hle using Nat.decreasingInduction with
  | self => exact .done
  | of_succ k hk ih => exact .whitespace (h k le_rfl hk) (ih fun i hi => h i (by omega))

end Trivia

variable {offset : ℕ}

/-- Where a second character is ahead, the position goes past both. -/
lemma advance_advance {c : Char} (hc : c ≠ '\x00') (h : peek source offset 1 = c) :
    advance source (advance source offset) = offset + 2 ∧ offset + 2 ≤ source.length := by
  have hsecond : offset + 1 < source.length := @lt_of_peek_eq source _ hc _ h
  have hfirst : advance source offset = offset + 1 := Scanning.advance_of_lt (by omega)
  rw [hfirst, Scanning.advance_of_lt hsecond]
  exact ⟨rfl, hsecond⟩

/-- The loop over the white space before a comment or a token. -/
lemma trivia_whitespace (h : offset ≤ source.length) :
    Trivia source offset (skipChars source isAsciiWhitespace rfl offset) := by
  obtain ⟨hle, -, hall, -⟩ := @Scanning.skipWhile_spec _ source 0 offset
    (fun byte => isAsciiWhitespace (Char.ofUInt8 byte)) rfl h
  exact Trivia.of_whitespace hle hall

variable {state : State}

/-- As long as nothing is reported, white space and comments are skipped, and no more. -/
lemma skipTrivia_trivia (h : state.offset ≤ source.length)
    (hclean : (skipTrivia source state).diagnostics = state.diagnostics) :
    Trivia source state.offset (skipTrivia source state).offset := by
  fun_induction skipTrivia source state with
  | case1 state offset hline ih =>
    have hspace : state.offset ≤ offset ∧ offset ≤ source.length := skipChars_within rfl h
    obtain ⟨hle, hwithin, hinside, hend⟩ :=
      @Scanning.skipUntil_spec _ source (fun i => peek source i == '\n') offset hspace.2
    have hlong : offset + 2 ≤ skipUntil source (fun i => peek source i == '\n') offset := by
      have hsecond : offset + 1 < source.length :=
        @lt_of_peek_eq source _ (by decide) _ hline.2
      refine Scanning.le_skipUntil_of_forall hspace.2 hsecond fun i hi hlt => ?_
      obtain rfl | rfl : i = offset ∨ i = offset + 1 := by omega
      · simp [hline.1]
      · have hpeek : peek source (offset + 1) = '/' := hline.2
        simp [hpeek]
    refine (trivia_whitespace h).trans (.comment ?_ (ih hwithin hclean))
    refine .line hline hlong hwithin ?_ ?_
    · intro i hi hlt
      simpa using hinside i (by omega) hlt
    · simpa using hend
  | case2 state offset hline hopen inside close hclose ih =>
    have hspace : state.offset ≤ offset ∧ offset ≤ source.length := skipChars_within rfl h
    obtain ⟨hinside, hafter⟩ : inside = offset + 2 ∧ offset + 2 ≤ source.length :=
      advance_advance (by decide) hopen.2
    have hlong : offset + 2 ≤ close := hinside.symm.le.trans Scanning.le_skipUntil
    obtain ⟨-, -, hall, hend⟩ :=
      @Scanning.skipUntil_spec _ source (closesComment source) inside (hinside.le.trans hafter)
    have hcloses : closesComment source close = true := hend.resolve_left hclose.ne
    have hslash : peek source close 1 = '/' := by
      simp only [closesComment, Bool.and_eq_true, beq_iff_eq] at hcloses
      exact hcloses.2
    obtain ⟨hpast, hwithin⟩ := advance_advance (by decide) hslash
    rw [hpast] at ih hclean ⊢
    refine (trivia_whitespace h).trans (.comment ?_ (ih hwithin hclean))
    exact .block hopen hlong (fun i hi hlt => hall i (hinside.le.trans hi) hlt) hcloses
  | case3 state offset hline hopen inside close hclose =>
    simp [State.emit] at hclean
  | case4 state offset hline hopen => exact trivia_whitespace h

/-! ## The spans of a run -/

namespace Ordered

variable {limit : ℕ}

variable {tokens : List Token}

lemma mono {start start' : ℕ} (h : start ≤ start') (htokens : Ordered limit start' tokens) :
    Ordered limit start tokens := by
  cases tokens with
  | nil => trivial
  | cons token tokens => exact ⟨h.trans htokens.1, htokens.2⟩

lemma le_offset {start : ℕ} (h : Ordered limit start tokens) {token : Token}
    (hmem : token ∈ tokens) : start ≤ token.offset ∧ 0 < token.length ∧ token.finish ≤ limit := by
  induction tokens generalizing start with
  | nil => simp at hmem
  | cons first tokens ih =>
    obtain ⟨hle, hpos, hlimit, hrest⟩ := h
    obtain rfl | hmem := List.mem_cons.mp hmem
    · exact ⟨hle, hpos, hlimit⟩
    · obtain ⟨hstart, hpos', hlimit'⟩ := ih hrest hmem
      have hfinish : first.offset ≤ first.finish := Nat.le_add_right _ _
      exact ⟨by omega, hpos', hlimit'⟩

/-- Spans that follow one another are disjoint, and their starts increase. -/
lemma pairwise {start : ℕ} (h : Ordered limit start tokens) :
    tokens.Pairwise fun earlier later =>
      earlier.offset < later.offset ∧ earlier.finish ≤ later.offset := by
  induction tokens generalizing start with
  | nil => exact .nil
  | cons first tokens ih =>
    obtain ⟨hle, hpos, hlimit, hrest⟩ := h
    refine .cons (fun later hmem => ?_) (ih hrest)
    have hstart := (hrest.le_offset hmem).1
    have hfinish : first.finish = first.offset + first.length := rfl
    exact ⟨by omega, hstart⟩

end Ordered

/-- The loop has added tokens up to the end of the source. -/
structure Spans (source : Source) (state next : State) (tokens : List Token) : Prop where
  adds : next.tokens = state.tokens ++ tokens
  offset : next.offset = source.length
  diagnostics : state.diagnostics <+: next.diagnostics
  ordered : Ordered source.length state.offset tokens
  kinds : ∀ token ∈ tokens, token.kind ≠ .endOfFile
  separated : next.diagnostics = state.diagnostics →
    Separated source state.offset (tokens ++ [endToken source])
  spells : next.diagnostics = state.diagnostics →
    respell source state.offset (tokens ++ [endToken source]) =
      slice source state.offset source.length

/-- White space and comments up to the end. -/
lemma spans_nil {next : State} (hmoves : Moves source state next)
    (hend : next.offset = source.length)
    (htrivia : next.diagnostics = state.diagnostics → Trivia source state.offset next.offset) :
    Spans source state next [] where
  adds := by rw [hmoves.tokens, List.append_nil]
  offset := hend
  diagnostics := hmoves.diagnostics
  ordered := trivial
  kinds := by simp
  separated hclean := by
    have hgap := htrivia hclean
    rw [hend] at hgap
    exact ⟨hgap, trivial⟩
  spells _ := by simp [respell, endToken, Token.text, Token.finish]

/-- White space and comments, a token, and what follows it. -/
lemma spans_cons (hsize : source.length < 2 ^ 32) {middle next last : State} {tokens : List Token}
    (hmoves : Moves source state middle)
    (htrivia : middle.diagnostics = state.diagnostics → Trivia source state.offset middle.offset)
    (hlexes : Lexes source middle next) (hspans : Spans source next last tokens) :
    ∃ token, Spans source state last (token :: tokens) := by
  obtain ⟨token, hadd, hkind, hoffset, hlength, hvalue⟩ := hlexes.token
  have hlt := hlexes.lt
  have hwithin := hlexes.within
  have hstart : token.offset = middle.offset := by
    rw [hoffset]
    exact Nat.mod_eq_of_lt (by omega)
  have hpos : 0 < token.length := by
    have hmax : 0 < State.maxLength := by decide
    omega
  have hfinish : token.finish ≤ next.offset := by
    rw [Token.finish]
    omega
  have hgrown : state.diagnostics <+: middle.diagnostics := hmoves.diagnostics
  have hsuffix : middle.diagnostics <+: last.diagnostics :=
    hlexes.diagnostics.trans hspans.diagnostics
  -- nothing has been reported in between when nothing has been reported at the end
  have hclean : last.diagnostics = state.diagnostics →
      middle.diagnostics = state.diagnostics ∧ next.diagnostics = middle.diagnostics ∧
        last.diagnostics = next.diagnostics := by
    intro heq
    have hmiddle : middle.diagnostics = state.diagnostics :=
      (hgrown.eq_of_length_le (heq ▸ hsuffix.length_le)).symm
    have hnext : next.diagnostics = middle.diagnostics :=
      (hlexes.diagnostics.eq_of_length_le
        (by rw [hmiddle, ← heq]; exact hspans.diagnostics.length_le)).symm
    exact ⟨hmiddle, hnext, by rw [heq, hnext, hmiddle]⟩
  have hexact : last.diagnostics = state.diagnostics → token.finish = next.offset := by
    intro heq
    have hmax := hlexes.exact (hclean heq).2.1
    rw [Token.finish]
    omega
  refine ⟨token, ?_, hspans.offset, hgrown.trans hsuffix, ?_, ?_, ?_, ?_⟩
  · rw [hspans.adds, hadd, hmoves.tokens, List.append_assoc, List.singleton_append]
  · exact ⟨hstart ▸ hmoves.le, hpos, hfinish.trans hwithin, hspans.ordered.mono hfinish⟩
  · intro token' hmem
    obtain rfl | hmem := List.mem_cons.mp hmem
    · exact hkind
    · exact hspans.kinds token' hmem
  · intro heq
    have hrest := hspans.separated (hclean heq).2.2
    rw [← hexact heq] at hrest
    exact ⟨hstart ▸ htrivia (hclean heq).1, hrest⟩
  · intro heq
    have hrest := hspans.spells (hclean heq).2.2
    have htext : token.text source = slice source token.offset token.finish := by
      unfold Token.text
      split
      · rename_i text hsome
        rw [hvalue text (by rw [hsome]; rfl), hstart, Token.finish, hstart]
      · rfl
    rw [List.cons_append, respell, hexact heq, hrest, htext, hexact heq, hstart,
      Scanning.slice_append_slice hmoves.le hlt.le,
      Scanning.slice_append_slice (hmoves.le.trans hlt.le) hwithin]

/-- The loop reads the source up to its end. -/
theorem lexTokens_spans (hsize : source.length < 2 ^ 32) (h : state.offset ≤ source.length) :
    ∃ tokens, Spans source state (lexTokens source state) tokens := by
  fun_induction lexTokens source state with
  | case1 state hgo next hlt ih =>
    have hlexes := lexToken_lexes hlt
    obtain ⟨tokens, hspans⟩ := ih hlexes.within
    obtain ⟨token, hspans⟩ :=
      spans_cons hsize (skipTrivia_moves h) (skipTrivia_trivia h) hlexes hspans
    exact ⟨token :: tokens, hspans⟩
  | case2 state hgo next hend =>
    have hmoves : Moves source state next := skipTrivia_moves h
    have hwithin := hmoves.within
    exact ⟨[], spans_nil hmoves (by omega) (skipTrivia_trivia h)⟩
  | case3 state hend => exact ⟨[], spans_nil (Moves.refl h) (by omega) fun _ => .done⟩

lemma validateUtf8_moves {index : ℕ} (h : state.offset ≤ source.length) :
    Moves source state (validateUtf8 source state index) ∧
      (validateUtf8 source state index).offset = state.offset := by
  fun_induction validateUtf8 source state index with
  | case1 state index hlt length hzero ih =>
    obtain ⟨hmoves, hoffset⟩ := ih h
    exact ⟨(Moves.refl h).emit.trans hmoves, hoffset⟩
  | case2 state index hlt length hlength ih => exact ih h
  | case3 state index hend => exact ⟨Moves.refl h, rfl⟩

/-- Between tokens lies nothing but what may be skipped. -/
lemma skipped_of_separated {start : ℕ} {tokens : List Token}
    (h : Separated source start (tokens ++ [endToken source])) (hle : start ≤ offset)
    (hlt : offset < source.length) :
    (∃ token ∈ tokens, token.offset ≤ offset ∧ offset < token.finish) ∨ Skipped source offset := by
  induction tokens generalizing start with
  | nil => exact Or.inr (h.1.skipped hle hlt)
  | cons token tokens ih =>
    obtain ⟨hgap, hrest⟩ := h
    by_cases hbefore : offset < token.offset
    · exact Or.inr (hgap.skipped hle hbefore)
    by_cases hinside : offset < token.finish
    · exact Or.inl ⟨token, by simp, by omega, hinside⟩
    · obtain ⟨later, hmem, hlater⟩ | hskipped := ih hrest (by omega)
      · exact Or.inl ⟨later, List.mem_cons_of_mem _ hmem, hlater⟩
      · exact Or.inr hskipped

/-- The tokens of a source of a size that fits into thirty-two bits: they end with the end of the
file, none of the others is that or is empty, their starts increase and their spans are disjoint and
within the source, and when nothing is reported the rest is white space and comments, and the tokens
and the gaps put together are the source. -/
def Faithful (source : Source) (result : State) : Prop :=
  ∃ tokens, result.tokens = tokens ++ [endToken source] ∧
    (∀ token ∈ tokens, token.kind ≠ .endOfFile ∧ 0 < token.length ∧
      token.finish ≤ source.length) ∧
    (result.tokens.Pairwise fun earlier later =>
      earlier.offset < later.offset ∧ earlier.finish ≤ later.offset) ∧
    (result.diagnostics = [] →
      Separated source 0 result.tokens ∧
      (∀ offset < source.length,
        (∃ token ∈ tokens, token.offset ≤ offset ∧ offset < token.finish) ∨
          Skipped source offset) ∧
      respell source 0 result.tokens = source)

/-- The token that the run adds last. -/
lemma add_endOfFile (hsize : source.length < 2 ^ 32) (h : state.offset = source.length) :
    state.add source .endOfFile state.offset 0 =
      { state with tokens := state.tokens ++ [endToken source] } := by
  rw [State.add, if_neg (Nat.not_lt_zero _), h, Nat.mod_eq_of_lt hsize]
  rfl

lemma faithful_lex (hsize : source.length ≤ 2 ^ 32 - 1) : Faithful source (lex source) := by
  have hsize' : source.length < 2 ^ 32 := by omega
  obtain ⟨hvalidate, hzero⟩ := @validateUtf8_moves source {} 0 (Nat.zero_le _)
  obtain ⟨tokens, hspans⟩ := lexTokens_spans hsize' hvalidate.within
  have hlex : lex source =
      { lexTokens source (validateUtf8 source {} 0) with
        tokens := tokens ++ [endToken source] } := by
    have hadds := hspans.adds
    rw [hvalidate.tokens, List.nil_append] at hadds
    rw [lex, if_neg (by omega)]
    show State.add source _ .endOfFile _ 0 = _
    rw [add_endOfFile hsize' hspans.offset, hadds]
  have hordered := hspans.ordered
  have hpairwise := hordered.pairwise
  rw [hzero] at hordered
  rw [hlex]
  refine ⟨tokens, rfl, fun token hmem => ?_, ?_, fun hclean => ?_⟩
  · obtain ⟨-, hpos, hlimit⟩ := hordered.le_offset hmem
    exact ⟨hspans.kinds token hmem, hpos, hlimit⟩
  · refine List.pairwise_append.mpr ⟨hpairwise, List.pairwise_singleton _ _, ?_⟩
    intro earlier hearlier later hlater
    obtain rfl := List.mem_singleton.mp hlater
    obtain ⟨-, hpos, hlimit⟩ := hordered.le_offset hearlier
    have hfinish : earlier.finish = earlier.offset + earlier.length := rfl
    have hend : (endToken source).offset = source.length := rfl
    constructor <;> omega
  · -- nothing has been reported by the first pass over the bytes either
    have hclean : (lexTokens source (validateUtf8 source {} 0)).diagnostics = [] := hclean
    have hgrown := hspans.diagnostics
    rw [hclean] at hgrown
    have hsame := hclean.trans (List.prefix_nil.mp hgrown).symm
    have hseparated := hspans.separated hsame
    have hspells := hspans.spells hsame
    rw [hzero] at hseparated hspells
    refine ⟨hseparated, fun offset hlt => ?_, ?_⟩
    · exact skipped_of_separated hseparated (Nat.zero_le _) hlt
    · exact hspells.trans Scanning.slice_all

lemma lex_of_too_large (hsize : 2 ^ 32 - 1 < source.length) :
    (lex source).tokens = [{ offset := 0, length := 0, kind := .endOfFile }] ∧
      (lex source).diagnostics = [{ kind := .sourceTooLarge, offset := 0 }] := by
  rw [lex, if_pos hsize]
  exact ⟨rfl, rfl⟩

/-- A source that fits is read whole; one that does not is refused, with the end of the file at its
beginning; and a sequence of bytes is taken as a character when it is the encoding of one. -/
theorem lex_faithful (source : Source) :
    (source.length ≤ 2 ^ 32 - 1 → Faithful source (lex source)) ∧
    (2 ^ 32 - 1 < source.length →
      (lex source).tokens = [{ offset := 0, length := 0, kind := .endOfFile }] ∧
      (lex source).diagnostics = [{ kind := .sourceTooLarge, offset := 0 }]) ∧
    ∀ offset < source.length, ∀ length ≠ 0,
      validUtf8Length source offset = length ↔
        ∃ c : Char, String.utf8EncodeChar c <+: source.drop offset ∧
          (String.utf8EncodeChar c).length = length := by
  refine ⟨faithful_lex, lex_of_too_large, fun offset hlt length hlength => ?_⟩
  exact validUtf8Length_eq_iff hlt hlength

/-- The end of the file is not at the end of a source that is refused. -/
theorem lex_semicolons_unfaithful :
    ¬ Faithful (List.replicate (2 ^ 32) 59) (lex (List.replicate (2 ^ 32) 59)) := by
  have hlength : (List.replicate (2 ^ 32) (59 : UInt8)).length = 2 ^ 32 := List.length_replicate
  generalize List.replicate (2 ^ 32) (59 : UInt8) = source at hlength ⊢
  rintro ⟨tokens, htokens, -⟩
  rw [(lex_of_too_large (by omega)).1] at htokens
  have hlast := congrArg List.getLast? htokens
  simp only [List.getLast?_singleton, List.getLast?_concat, endToken, hlength] at hlast
  simp at hlast

end Lexer

end Chtholly
