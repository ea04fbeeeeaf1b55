import Chtholly.Scanning.Text
import Mathlib.Data.List.Basic
import Chtholly.Registry.Digest

/-!
# Texts made of named fields

The signed texts of the registry put each field on a line of its own, with the length of the value
before the value.  The length makes the encoding unambiguous for every value, and makes a reader
refuse a value with a line break in it instead of taking its second line for another field.

## Main definitions

* `Registry.decimal`, `Registry.parseUnsigned` — 64-bit numbers as texts.
* `Registry.appendField` — one field of a signed text.
* `Registry.lines`, `Registry.cut` — `std::getline` over a text, `find` and `substr` in a line.
* `Registry.parseRfc3339` — a time as seconds.

## Main results

* `Registry.appendField_inj` — a field can be read off the front of a text in one way only.
* `Registry.lines_appendField` — a field is one line, unless its value has a line break.
-/

set_option autoImplicit false

namespace Chtholly

namespace Registry

/-- The bytes of a text: the characters of the model are the bytes of the source's strings. -/
def Text.bytes (text : Text) : Bytes := text.map fun ch => UInt8.ofNat ch.toNat

/-- `std::to_string`. -/
def decimal (n : ℕ) : Text := Nat.toDigits 10 n

/-- `std::from_chars` for a 64-bit number that is all of the text. -/
def parseUnsigned (text : Text) : Option UInt64 :=
  if text ≠ [] ∧ text.all Char.isDigit = true ∧ Nat.ofDigitChars 10 text 0 < 2 ^ 64 then
    some (UInt64.ofNat (Nat.ofDigitChars 10 text 0))
  else none

def appendField (name value : Text) : Text :=
  name ++ '\t' :: decimal value.length ++ ':' :: value ++ ['\n']

/-- The lines that `std::getline` gives. -/
def lines : Text → List Text
  | [] => []
  | ch :: text =>
    if ch = '\n' then [] :: lines text
    else
      match lines text with
      | [] => [[ch]]
      | line :: rest => (ch :: line) :: rest

/-- The text before and after the first `sep`. -/
def cut (sep : Char) : Text → Option (Text × Text)
  | [] => none
  | ch :: text =>
    if ch = sep then some ([], text)
    else (cut sep text).map fun p => (ch :: p.1, p.2)

/-! ## Times -/

def leapYear (year : ℕ) : Bool := year % 4 == 0 && (year % 100 != 0 || year % 400 == 0)

def daysInMonth (year month : ℕ) : ℕ :=
  match month with
  | 2 => if leapYear year then 29 else 28
  | 4 | 6 | 9 | 11 => 30
  | _ => 31

/-- The days from the epoch to the first day of a month. -/
def daysBefore (year month : ℕ) : ℕ :=
  ((List.range' 1970 (year - 1970)).map fun y => if leapYear y then 366 else 365).sum +
    ((List.range' 1 (month - 1)).map (daysInMonth year)).sum

/-- `count` decimal digits from `offset` on. -/
def number (value : Text) (offset count : ℕ) : Option ℕ :=
  let digits := (value.drop offset).take count
  if digits.all Char.isDigit then some (Nat.ofDigitChars 10 digits 0) else none

/-- A time in the form the registry writes it, as seconds.  The source converts the parts to seconds
and back to refuse a day that the month does not have. -/
def parseRfc3339 (value : Text) : Option ℕ := do
  guard (value.length = 20 ∧ value[4]? = some '-' ∧ value[7]? = some '-' ∧
    value[10]? = some 'T' ∧ value[13]? = some ':' ∧ value[16]? = some ':' ∧ value[19]? = some 'Z')
  let year ← number value 0 4
  let month ← number value 5 2
  let day ← number value 8 2
  let hour ← number value 11 2
  let minute ← number value 14 2
  let second ← number value 17 2
  guard (1970 ≤ year ∧ 1 ≤ month ∧ month ≤ 12 ∧ 1 ≤ day ∧ day ≤ 31 ∧ hour ≤ 23 ∧
    minute ≤ 59 ∧ second ≤ 59)
  guard (day ≤ daysInMonth year month)
  some ((daysBefore year month + (day - 1)) * 86400 + hour * 3600 + minute * 60 + second)

example : parseRfc3339 "2024-03-01T00:00:10Z".toList = some 1709251210 := by decide

/-! ## Numbers -/

lemma isDigit_of_mem_decimal {n : ℕ} {ch : Char} (h : ch ∈ decimal n) : ch.isDigit = true :=
  Nat.isDigit_of_mem_toDigits (by omega) (by omega) h

lemma decimal_injective : Function.Injective decimal := by
  intro m n h
  have := congrArg (fun l => Nat.ofDigitChars 10 l 0) h
  simpa [decimal, Nat.ofDigitChars_ten_toDigits] using this

lemma parseUnsigned_decimal {n : ℕ} (h : n < 2 ^ 64) :
    parseUnsigned (decimal n) = some (UInt64.ofNat n) := by
  have hall : (decimal n).all Char.isDigit = true :=
    List.all_eq_true.mpr fun ch hch => isDigit_of_mem_decimal hch
  have hval : Nat.ofDigitChars 10 (decimal n) 0 = n := Nat.ofDigitChars_ten_toDigits
  rw [parseUnsigned, if_pos ⟨Nat.toDigits_ne_nil, hall, by rw [hval]; exact h⟩, hval]

lemma parseUnsigned_toNat (n : UInt64) : parseUnsigned (decimal n.toNat) = some n := by
  rw [parseUnsigned_decimal n.toNat_lt, UInt64.ofNat_toNat]

/-! ## Fields -/

lemma colon_not_mem_decimal (n : ℕ) : ':' ∉ decimal n := by
  intro h
  have := isDigit_of_mem_decimal h
  revert this
  decide

lemma cut_append {sep : Char} {a : Text} (h : sep ∉ a) (b : Text) :
    cut sep (a ++ sep :: b) = some (a, b) := by
  induction a with
  | nil => simp [cut]
  | cons ch a ih =>
    have hch : ch ≠ sep := fun he => h (he ▸ .head _)
    rw [List.cons_append, cut, if_neg hch, ih fun hm => h (.tail _ hm)]
    rfl

/-- A field can be read off the front of a text in one way only. -/
theorem appendField_inj {name v w x y : Text}
    (h : appendField name v ++ x = appendField name w ++ y) : v = w ∧ x = y := by
  simp only [appendField, List.append_assoc, List.cons_append, List.nil_append] at h
  have hlen := congrArg (cut ':') (List.cons.inj (List.append_cancel_left h)).2
  rw [cut_append (colon_not_mem_decimal _), cut_append (colon_not_mem_decimal _)] at hlen
  obtain ⟨hlen, hrest⟩ := Prod.mk.inj (Option.some.inj hlen)
  obtain ⟨hvalue, htail⟩ := List.append_inj hrest (decimal_injective hlen)
  exact ⟨hvalue, (List.cons.inj htail).2⟩

/-! ## Lines -/

lemma lines_append {line : Text} (h : '\n' ∉ line) (rest : Text) :
    lines (line ++ '\n' :: rest) = line :: lines rest := by
  induction line with
  | nil => simp [lines]
  | cons ch line ih =>
    have hch : ch ≠ '\n' := fun he => h (he ▸ .head _)
    rw [List.cons_append, lines, if_neg hch, ih fun hm => h (.tail _ hm)]

/-- The line of a field. -/
def fieldLine (name value : Text) (length : ℕ) : Text :=
  name ++ '\t' :: decimal length ++ ':' :: value

/-- A field is one line, unless its value has a line break; then its first line is too short. -/
theorem lines_appendField {name : Text} (value : Text) (hname : '\n' ∉ name) (rest : Text) :
    ∃ first ls, lines (appendField name value ++ rest) =
        fieldLine name first value.length :: ls ∧
      (first = value ∧ ls = lines rest ∨ first.length < value.length) := by
  have hdec : ∀ n, '\n' ∉ decimal n := by
    intro n h
    have := isDigit_of_mem_decimal h
    revert this
    decide
  have hhead : ∀ first : Text, '\n' ∉ first → '\n' ∉ fieldLine name first value.length := by
    intro first hfirst
    simp only [fieldLine, List.mem_append, List.mem_cons]
    intro h
    rcases h with (h | h | h) | h | h
    · exact hname h
    · revert h; decide
    · exact hdec _ h
    · revert h; decide
    · exact hfirst h
  by_cases hv : '\n' ∈ value
  · obtain ⟨first, tail, hvalue, hfirst⟩ := List.eq_append_cons_of_mem hv
    refine ⟨first, lines (tail ++ '\n' :: rest), ?_, .inr (by simp [hvalue])⟩
    rw [← lines_append (hhead first hfirst), appendField, fieldLine, hvalue]
    simp
  · refine ⟨value, lines rest, ?_, .inl ⟨rfl, rfl⟩⟩
    rw [← lines_append (hhead value hv) rest]
    simp [appendField, fieldLine]

end Registry

end Chtholly
