import Chtholly.Lexer.Utf8
import Chtholly.Scanning.Cursor

/-!
# Tokens

A token is kept as its place in the source, sixteen bits for its length, and its kind.  A token that
names something also has its text in the table of identifiers.

## Main definitions

* `Lexer.TokenKind`, `Lexer.keywordKind` — the kinds of tokens, and the kind of a word.
* `Lexer.Token`, `Lexer.Token.text` — a token of the buffer, and what it spells.
* `Lexer.Diagnostic` — what the lexer reports.
-/

set_option autoImplicit false

namespace Chtholly

namespace Lexer

open Scanning (slice)

inductive TokenKind
  | endOfFile | invalid | identifier | integerLiteral | floatLiteral | stringLiteral
  | cStringLiteral | charLiteral | kwAs | kwAssert | kwBool | kwBreak | kwChar | kwConst
  | kwContinue | kwCopy | kwDefer | kwDo | kwElse | kwEnum | kwExport | kwF32 | kwF64 | kwFalse
  | kwFn | kwFor | kwForeach | kwI8 | kwI16 | kwI32 | kwI64 | kwISize | kwIf | kwImpl | kwImport
  | kwIn | kwLet | kwModule | kwMove | kwNever | kwNull | kwOperator | kwPub | kwReturn | kwSizeof
  | kwAlignof | kwStatic | kwString | kwStruct | kwSwitch | kwTrait | kwTrue | kwU8 | kwU16
  | kwU32 | kwU64 | kwUSize | kwUnion | kwUnreachable | kwUnsafe | kwVar | kwVoid | kwWhere
  | kwWhile | lParen | rParen | lBrace | rBrace | lBracket | rBracket | comma | colon | scope
  | dot | dotDot | dotDotDot | semicolon | question | plus | minus | star | slash | percent | amp
  | pipe | caret | tilde | lessLess | greaterGreater | bang | equal | fatArrow | less | lessEqual
  | greater | greaterEqual | spaceship | equalEqual | bangEqual | ampAmp | pipePipe | plusEqual
  | minusEqual | starEqual | slashEqual | percentEqual | ampEqual | pipeEqual | caretEqual
  | lessLessEqual | greaterGreaterEqual
  deriving DecidableEq

/-- The spellings from `KwAs` to `KwWhile`. -/
def keywords : List (TokenKind × String) :=
  [(.kwAs, "as"), (.kwAssert, "assert"), (.kwBool, "bool"), (.kwBreak, "break"),
    (.kwChar, "char"), (.kwConst, "const"), (.kwContinue, "continue"), (.kwCopy, "copy"),
    (.kwDefer, "defer"), (.kwDo, "do"), (.kwElse, "else"), (.kwEnum, "enum"),
    (.kwExport, "export"), (.kwF32, "f32"), (.kwF64, "f64"), (.kwFalse, "false"), (.kwFn, "fn"),
    (.kwFor, "for"), (.kwForeach, "foreach"), (.kwI8, "i8"), (.kwI16, "i16"), (.kwI32, "i32"),
    (.kwI64, "i64"), (.kwISize, "isize"), (.kwIf, "if"), (.kwImpl, "impl"), (.kwImport, "import"),
    (.kwIn, "in"), (.kwLet, "let"), (.kwModule, "module"), (.kwMove, "move"), (.kwNever, "never"),
    (.kwNull, "null"), (.kwOperator, "operator"), (.kwPub, "pub"), (.kwReturn, "return"),
    (.kwSizeof, "sizeof"), (.kwAlignof, "alignof"), (.kwStatic, "static"), (.kwString, "string"),
    (.kwStruct, "struct"), (.kwSwitch, "switch"), (.kwTrait, "trait"), (.kwTrue, "true"),
    (.kwU8, "u8"), (.kwU16, "u16"), (.kwU32, "u32"), (.kwU64, "u64"), (.kwUSize, "usize"),
    (.kwUnion, "union"), (.kwUnreachable, "unreachable"), (.kwUnsafe, "unsafe"), (.kwVar, "var"),
    (.kwVoid, "void"), (.kwWhere, "where"), (.kwWhile, "while")]

/-- A byte as a `char`; the bytes from 0x80 on are none of the characters that are asked for. -/
def asText (bytes : Source) : List Char := bytes.map Char.ofUInt8

def keywordKind (text : Source) : TokenKind :=
  match keywords.find? fun entry => entry.2.toList == asText text with
  | some entry => entry.1
  | none => .identifier

structure Token where
  /-- A `std::uint32_t`. -/
  offset : ℕ
  /-- A `std::uint16_t`. -/
  length : ℕ
  kind : TokenKind
  hasError : Bool := false
  /-- The text in the table of identifiers, for a token that has one. -/
  value : Option Source := none
  deriving DecidableEq

namespace Token

def finish (token : Token) : ℕ := token.offset + token.length

/-- `TokenBuffer::text`. -/
def text (source : Source) (token : Token) : Source :=
  match token.value with
  | some text => text
  | none => slice source token.offset token.finish

end Token

inductive DiagnosticKind
  | sourceTooLarge
  | invalidUtf8
  | tokenTooLong
  | unterminatedComment
  | unterminatedLiteral
  | invalidEscape
  | invalidCharLiteral
  | invalidNumericLiteral
  | nonAsciiIdentifier
  | unexpectedCharacter
  deriving DecidableEq

structure Diagnostic where
  kind : DiagnosticKind
  offset : ℕ
  length : ℕ := 1
  deriving DecidableEq

/-- No word is the end of the file. -/
lemma keywordKind_ne (text : Source) : keywordKind text ≠ .endOfFile := by
  unfold keywordKind
  split
  · rename_i entry hfind
    have hall : ∀ entry ∈ keywords, entry.1 ≠ .endOfFile := by decide
    exact hall entry (List.mem_of_find?_eq_some hfind)
  · simp

end Lexer

end Chtholly
