import Chtholly.Registry.ManifestStrings

/-!
# Arrays in a manifest

An array is scanned round by round.  A round takes a string and the comma behind it.  The loop ends
at the end of the text, and also at a closing bracket, whatever stands behind that.

## Main definitions

* `Registry.ManifestToml.ArrayBody`, `Registry.ManifestToml.SpellsArray` — the spellings of a list.
* `Registry.ManifestToml.arrayRound`, `Registry.ManifestToml.arrayElements` — the loop by its rounds.

## Main results

* `Registry.ManifestToml.elements_eq` — the number of rounds that is allowed for is enough.
* `Registry.ManifestToml.arrayElements_eq_some_iff` — the texts that are read as an array.
* `Registry.ManifestToml.spellsArray_iff` — what is read is all of the text when no closing bracket
  stands before the last one.
-/

set_option autoImplicit false

namespace Chtholly

namespace Registry

namespace ManifestToml

/-! ## Spellings -/

/-- The text between the brackets of an array. -/
inductive ArrayBody : List Text → Text → Prop
  | empty {blank : Text} : Blank blank → ArrayBody [] blank
  | last {before after value inner : Text} : Blank before → Escaped value inner → Blank after →
      ArrayBody [value] (before ++ ('"' :: inner ++ ['"']) ++ after)
  | cons {before after value inner rest : Text} {values : List Text} : Blank before →
      Escaped value inner → Blank after → ArrayBody values rest →
      ArrayBody (value :: values) (before ++ ('"' :: inner ++ ['"']) ++ after ++ ',' :: rest)

/-- A text that spells a list, with blanks around it. -/
def SpellsArray (text : Text) (values : List Text) : Prop :=
  ∃ before body after, Blank before ∧ Blank after ∧ ArrayBody values body ∧
    text = before ++ ('[' :: body ++ [']']) ++ after

/-- No closing bracket stands outside of the strings before the last character. -/
def ArrayEndsLast (text : Text) : Prop :=
  ∀ middle, between '[' ']' (trim text) = some middle → ']' ∉ marks .outside middle

/-! ## Rounds -/

/-- What a round of a loop does. -/
inductive Round (α : Type)
  | failed
  | finished
  | next (item : α) (rest : Text)
  deriving DecidableEq

/-- A round of the loop over an array, on the text that is not read. -/
def arrayRound (text : Text) : Round Text :=
  match text.dropWhile isSpace with
  | [] => .finished
  | ']' :: _ => .finished
  | '"' :: rest =>
    match untilQuote false rest with
    | none => .failed
    | some (inner, rest) =>
      match parseString ('"' :: inner ++ ['"']) with
      | none => .failed
      | some element =>
        match rest.dropWhile isSpace with
        | [] => .next element []
        | ',' :: rest => .next element rest
        | ']' :: rest => .next element (']' :: rest)
        | _ => .failed
  | _ => .failed

/-- What a round consumes, and where it stops. -/
inductive ArrayStep (value : Text) : Text → Text → Prop
  | comma {before inner after rest : Text} : Blank before → Escaped value inner → Blank after →
      ArrayStep value (before ++ ('"' :: inner ++ ['"']) ++ after ++ ',' :: rest) rest
  | close {before inner after rest : Text} : Blank before → Escaped value inner → Blank after →
      (rest = [] ∨ rest.head? = some ']') →
      ArrayStep value (before ++ ('"' :: inner ++ ['"']) ++ after ++ rest) rest

lemma arrayStep_of_round {text rest value : Text} (h : arrayRound text = .next value rest) :
    ArrayStep value text rest := by
  obtain ⟨before, hbefore, htext⟩ := exists_blank text
  unfold arrayRound at h
  split at h
  case h_3 tail htail =>
    cases hquote : untilQuote false tail with
    | none =>
      rw [hquote] at h
      cases h
    | some found =>
      obtain ⟨inner, tail'⟩ := found
      rw [hquote] at h
      dsimp only at h
      cases hvalue : parseString ('"' :: inner ++ ['"']) with
      | none =>
        rw [hvalue] at h
        cases h
      | some element =>
        rw [hvalue] at h
        dsimp only at h
        obtain ⟨after, hafter, hrest⟩ := exists_blank tail'
        have hescaped := escaped_of_parseString hvalue
        rw [htail, eq_of_untilQuote hquote, hrest] at htext
        have hshape : text = before ++ ('"' :: inner ++ ['"']) ++ after ++
            tail'.dropWhile isSpace := by
          rw [htext]
          simp
        split at h
        case h_1 hnil =>
          cases h
          rw [hnil] at hshape
          exact hshape ▸ .close hbefore hescaped hafter (.inl rfl)
        case h_2 more hcomma =>
          cases h
          rw [hcomma] at hshape
          exact hshape ▸ .comma hbefore hescaped hafter
        case h_3 more hclose =>
          cases h
          rw [hclose] at hshape
          exact hshape ▸ .close hbefore hescaped hafter (.inr rfl)
        case h_4 => cases h
  all_goals cases h

lemma arrayRound_quoted {before inner after value : Text} (hbefore : Blank before)
    (hescaped : Escaped value inner) (hafter : Blank after) (rest : Text) :
    arrayRound (before ++ ('"' :: inner ++ ['"']) ++ after ++ rest) =
      match rest.dropWhile isSpace with
      | [] => .next value []
      | ',' :: rest => .next value rest
      | ']' :: rest => .next value (']' :: rest)
      | _ => .failed := by
  have hdrop : (before ++ ('"' :: inner ++ ['"']) ++ after ++ rest).dropWhile isSpace =
      '"' :: (inner ++ '"' :: (after ++ rest)) := by
    rw [List.append_assoc, List.append_assoc, dropWhile_blank hbefore, List.cons_append,
      List.cons_append, dropWhile_cons rfl, List.append_assoc]
    rfl
  unfold arrayRound
  rw [hdrop]
  change (match untilQuote false (inner ++ '"' :: (after ++ rest)) with
    | none => Round.failed
    | some (inner, rest) => _) = _
  rw [untilQuote_of_escaped hescaped]
  dsimp only
  rw [parseString_of_escaped hescaped]
  dsimp only
  rw [dropWhile_blank hafter]

variable {text value : Text}

lemma round_of_arrayStep {rest : Text} (h : ArrayStep value text rest) :
    arrayRound text = .next value rest := by
  cases h with
  | comma hbefore hescaped hafter =>
    rw [arrayRound_quoted hbefore hescaped hafter, dropWhile_cons rfl]
    rfl
  | close hbefore hescaped hafter hend =>
    rw [arrayRound_quoted hbefore hescaped hafter]
    obtain rfl | hhead := hend
    · rfl
    · cases rest with
      | nil => rfl
      | cons ch rest =>
        cases hhead
        rw [dropWhile_cons rfl]
        rfl

/-- Every round consumes a string. -/
lemma ArrayStep.lt {rest : Text} (h : ArrayStep value text rest) : rest.length < text.length := by
  cases h with
  | comma => simp only [List.length_append, List.length_cons]; omega
  | close => simp only [List.length_append, List.length_cons]; omega

/-- The last round finds a closing bracket or nothing at all. -/
lemma arrayRound_eq_finished_iff :
    arrayRound text = .finished ↔
      Blank text ∨ ∃ blank more, Blank blank ∧ text = blank ++ ']' :: more := by
  constructor
  · intro h
    obtain ⟨blank, hblank, htext⟩ := exists_blank text
    cases hdrop : text.dropWhile isSpace with
    | nil => exact .inl (List.dropWhile_eq_nil_iff.1 hdrop)
    | cons ch more =>
      by_cases hclose : ch = ']'
      · rw [hdrop, hclose] at htext
        exact .inr ⟨blank, more, hblank, htext⟩
      · unfold arrayRound at h
        rw [hdrop] at h
        split at h
        case h_1 heq => cases heq
        case h_2 heq => exact absurd (List.cons.inj heq).1 hclose
        case h_3 =>
          repeat' split at h
          all_goals cases h
        case h_4 => cases h
  · rintro (hblank | ⟨blank, more, hblank, rfl⟩)
    · unfold arrayRound
      rw [List.dropWhile_eq_nil_iff.2 hblank]
    · unfold arrayRound
      rw [dropWhile_blank hblank, dropWhile_cons rfl]
      rfl

lemma arrayRound_of_end {blank rest : Text} (hblank : Blank blank)
    (hend : rest = [] ∨ rest.head? = some ']') : arrayRound (blank ++ rest) = .finished := by
  apply arrayRound_eq_finished_iff.2
  obtain rfl | hhead := hend
  · exact .inl (by rwa [List.append_nil])
  · cases rest with
    | nil => cases hhead
    | cons ch rest =>
      cases hhead
      exact .inr ⟨blank, rest, hblank, rfl⟩

/-- The loop over an array. -/
def arrayElements (text : Text) : Option (List Text) :=
  match _h : arrayRound text with
  | .failed => none
  | .finished => some []
  | .next value rest => (arrayElements rest).map (value :: ·)
termination_by text.length
decreasing_by exact (arrayStep_of_round _h).lt

lemma arrayElements_eq (text : Text) :
    arrayElements text =
      match arrayRound text with
      | .failed => none
      | .finished => some []
      | .next value rest => (arrayElements rest).map (value :: ·) := by
  rw [arrayElements]
  split
  case h_1 h => rw [h]
  case h_2 h => rw [h]
  case h_3 h => rw [h]

/-- The bounded loop does the same rounds, as long as one more is allowed for. -/
lemma elements_succ (fuel : ℕ) (text : Text) :
    elements (fuel + 2) text =
      match arrayRound text with
      | .failed => none
      | .finished => some []
      | .next value rest => (elements (fuel + 1) rest).map (value :: ·) := by
  rw [elements.eq_def]
  dsimp only
  unfold arrayRound
  -- Both loops look at the text after the blanks.
  generalize text.dropWhile isSpace = dropped
  split
  case h_1 => rfl
  case h_2 => rfl
  case h_3 tail =>
    change _ = match (match untilQuote false tail with
      | none => Round.failed
      | some (inner, rest) => _) with
      | .failed => none
      | .finished => some []
      | .next value rest => (elements (fuel + 1) rest).map (value :: ·)
    cases untilQuote false tail with
    | none => rfl
    | some found =>
      dsimp only [Option.bind_some]
      cases parseString ('"' :: found.1 ++ ['"']) with
      | none => rfl
      | some value =>
        dsimp only [Option.bind_some]
        generalize found.2.dropWhile isSpace = after
        split
        case h_1 => rfl
        case h_2 => rfl
        case h_3 => rfl
        case h_4 => first | rfl | split <;> simp_all
  case h_4 => first | rfl | split <;> simp_all

/-- The number of rounds that is allowed for is enough. -/
theorem elements_eq {fuel : ℕ} (h : text.length < fuel) :
    elements fuel text = arrayElements text := by
  induction fuel generalizing text with
  | zero => exact absurd h (Nat.not_lt_zero _)
  | succ fuel ih =>
    rw [arrayElements_eq]
    cases fuel with
    | zero =>
      rw [List.length_eq_zero_iff.1 (Nat.lt_one_iff.1 h)]
      rfl
    | succ fuel =>
      rw [elements_succ]
      cases hround : arrayRound text with
      | failed => rfl
      | finished => rfl
      | next value rest =>
        have hlt := (arrayStep_of_round hround).lt
        have hrest : rest.length < fuel + 1 := by omega
        dsimp only
        rw [ih hrest]

theorem parseStringArray_eq (text : Text) :
    parseStringArray text = (between '[' ']' (trim text)).bind arrayElements := by
  rw [parseStringArray]
  exact congrArg _ (funext fun middle => elements_eq (Nat.lt_succ_self _))

variable {values : List Text}

/-- The texts that are read as an array: behind a closing bracket anything may stand. -/
theorem arrayElements_eq_some_iff :
    arrayElements text = some values ↔ ∃ body rest, text = body ++ rest ∧ ArrayBody values body ∧
      (rest = [] ∨ rest.head? = some ']') := by
  constructor
  · intro h
    induction hlength : text.length using Nat.strong_induction_on generalizing text values with
    | _ n ih =>
      subst hlength
      rw [arrayElements_eq] at h
      split at h
      case h_1 => cases h
      case h_2 hround =>
        cases h
        obtain hblank | ⟨blank, more, hblank, rfl⟩ := arrayRound_eq_finished_iff.1 hround
        · exact ⟨text, [], (List.append_nil _).symm, .empty hblank, .inl rfl⟩
        · exact ⟨blank, ']' :: more, rfl, .empty hblank, .inr rfl⟩
      case h_3 value next hround =>
        obtain ⟨others, hothers, rfl⟩ := Option.map_eq_some_iff.1 h
        have hstep := arrayStep_of_round hround
        have hlt := hstep.lt
        cases hstep with
        | comma hbefore hescaped hafter =>
          obtain ⟨body, rest, rfl, hbody, hend⟩ := ih _ hlt hothers rfl
          exact ⟨_, rest, by rw [← List.cons_append, ← List.append_assoc],
            .cons hbefore hescaped hafter hbody, hend⟩
        | close hbefore hescaped hafter hclose =>
          -- the round that follows is the last one
          rw [arrayElements_eq, ← List.nil_append next, arrayRound_of_end blank_nil hclose] at hothers
          cases hothers
          exact ⟨_, next, rfl, .last hbefore hescaped hafter, hclose⟩
  · rintro ⟨body, rest, rfl, hbody, hend⟩
    induction hbody with
    | empty hblank =>
      rw [arrayElements_eq, arrayRound_of_end hblank hend]
    | last hbefore hescaped hafter =>
      rw [arrayElements_eq, round_of_arrayStep (.close hbefore hescaped hafter hend)]
      dsimp only
      rw [arrayElements_eq, ← List.nil_append rest, arrayRound_of_end blank_nil hend]
      rfl
    | @cons before after value inner tail values hbefore hescaped hafter _ ih =>
      have htext : before ++ ('"' :: inner ++ ['"']) ++ after ++ ',' :: tail ++ rest =
          before ++ ('"' :: inner ++ ['"']) ++ after ++ ',' :: (tail ++ rest) := by
        simp only [List.append_assoc, List.cons_append]
      rw [htext, arrayElements_eq, round_of_arrayStep (.comma hbefore hescaped hafter)]
      dsimp only
      rw [ih]
      rfl

/-! ## What is read -/

lemma close_notMem_blank {blank : Text} (h : Blank blank) : ']' ∉ blank := by
  intro hmem
  exact absurd (h _ hmem) (by decide)

lemma after_element {before inner after : Text} (hbefore : Blank before)
    (hescaped : Escaped value inner) (hafter : Blank after) :
    Mode.after .outside (before ++ ('"' :: inner ++ ['"']) ++ after) = .outside := by
  have hquoted := (marks_quoted hescaped).2
  generalize '"' :: inner ++ ['"'] = quoted at hquoted ⊢
  rw [after_append, after_append, (marks_blank hbefore).2, hquoted, (marks_blank hafter).2]

/-- A string between blanks leaves blanks outside of it. -/
lemma marks_element {before inner after : Text} (hbefore : Blank before)
    (hescaped : Escaped value inner) (hafter : Blank after) (rest : Text) :
    marks .outside (before ++ ('"' :: inner ++ ['"']) ++ after ++ rest) =
      before ++ after ++ marks .outside rest := by
  have hquoted := marks_quoted hescaped
  have helement := after_element hbefore hescaped hafter
  have hfirst := marks_blank hbefore
  rw [marks_append, helement, marks_append, marks_append]
  generalize '"' :: inner ++ ['"'] = quoted at hquoted ⊢
  rw [after_append, hfirst.2, hquoted.2, hfirst.1, hquoted.1, (marks_blank hafter).1,
    List.append_nil]

lemma close_notMem_arrayBody {body : Text} (h : ArrayBody values body) :
    ']' ∉ marks .outside body := by
  induction h with
  | empty hblank =>
    rw [(marks_blank hblank).1]
    exact close_notMem_blank hblank
  | last hbefore hescaped hafter =>
    rw [← List.append_nil (_ ++ _), marks_element hbefore hescaped hafter, marks, List.append_nil]
    exact close_notMem_blank (blank_append.2 ⟨hbefore, hafter⟩)
  | cons hbefore hescaped hafter _ ih =>
    rw [marks_element hbefore hescaped hafter, List.mem_append, not_or]
    refine ⟨close_notMem_blank (blank_append.2 ⟨hbefore, hafter⟩), ?_⟩
    rw [marks, if_pos (by decide), List.mem_cons, not_or]
    exact ⟨by decide, ih⟩

/-- Behind the elements the scanner is outside of the strings. -/
lemma marks_arrayBody_append {body : Text} (h : ArrayBody values body) (rest : Text) :
    marks .outside (body ++ rest) = marks .outside body ++ marks .outside rest := by
  have hafter : Mode.after .outside body = .outside := by
    induction h with
    | empty hblank => exact (marks_blank hblank).2
    | last hbefore hescaped hafter => exact after_element hbefore hescaped hafter
    | cons hbefore hescaped hafter _ ih =>
      rw [after_append, after_element hbefore hescaped hafter]
      exact ih
  rw [marks_append, hafter]

lemma trimmed_bracketed {first last : Char} (hfirst : isSpace first = false)
    (hlast : isSpace last = false) (middle : Text) : Trimmed (first :: middle ++ [last]) := by
  constructor
  · intro ch hch
    cases hch
    exact hfirst
  · intro ch hch
    rw [List.getLast?_concat] at hch
    cases hch
    exact hlast

/-- The text between the brackets, wherever blanks stand around them. -/
lemma between_trim_iff {first last : Char} (hfirst : isSpace first = false)
    (hlast : isSpace last = false) {middle : Text} :
    between first last (trim text) = some middle ↔ ∃ before after, Blank before ∧ Blank after ∧
      text = before ++ (first :: middle ++ [last]) ++ after := by
  constructor
  · intro h
    obtain ⟨before, after, hbefore, hafter, htext⟩ := exists_trim text
    rw [between_eq_some_iff.1 h] at htext
    exact ⟨before, after, hbefore, hafter, htext⟩
  · rintro ⟨before, after, hbefore, hafter, rfl⟩
    rw [trim_append hbefore (trimmed_bracketed hfirst hlast middle) hafter]
    exact between_eq_some_iff.2 rfl

lemma spellsArray_iff_between :
    SpellsArray text values ↔
      ∃ middle, between '[' ']' (trim text) = some middle ∧ ArrayBody values middle := by
  constructor
  · rintro ⟨before, body, after, hbefore, hafter, hbody, htext⟩
    exact ⟨body, (between_trim_iff rfl rfl).2 ⟨before, after, hbefore, hafter, htext⟩, hbody⟩
  · rintro ⟨body, hbetween, hbody⟩
    obtain ⟨before, after, hbefore, hafter, htext⟩ := (between_trim_iff rfl rfl).1 hbetween
    exact ⟨before, body, after, hbefore, hafter, hbody, htext⟩

/-- Every spelling is read. -/
theorem parseStringArray_of_spells (h : SpellsArray text values) :
    parseStringArray text = some values := by
  obtain ⟨body, hbetween, hbody⟩ := spellsArray_iff_between.1 h
  rw [parseStringArray_eq, hbetween, Option.bind_some]
  exact arrayElements_eq_some_iff.2 ⟨body, [], (List.append_nil body).symm, hbody, .inl rfl⟩

/-- What is read is all of the text when no closing bracket stands before the last one. -/
theorem spellsArray_iff (h : parseStringArray text = some values) :
    SpellsArray text values ↔ ArrayEndsLast text := by
  rw [spellsArray_iff_between, ArrayEndsLast]
  constructor
  · rintro ⟨body, hbetween, hbody⟩ middle hmiddle
    cases hbetween.symm.trans hmiddle
    exact close_notMem_arrayBody hbody
  · intro hends
    rw [parseStringArray_eq, Option.bind_eq_some_iff] at h
    obtain ⟨middle, hmiddle, hvalues⟩ := h
    obtain ⟨body, rest, rfl, hbody, hend⟩ := arrayElements_eq_some_iff.1 hvalues
    refine ⟨_, hmiddle, ?_⟩
    obtain rfl | hhead := hend
    · rwa [List.append_nil]
    · -- the bracket that the loop stopped at stands outside of the strings
      refine absurd ?_ (hends _ hmiddle)
      cases rest with
      | nil => cases hhead
      | cons ch rest =>
        cases hhead
        rw [marks_arrayBody_append hbody, marks, if_pos (by decide)]
        exact List.mem_append_right _ List.mem_cons_self

end ManifestToml

end Registry

end Chtholly
