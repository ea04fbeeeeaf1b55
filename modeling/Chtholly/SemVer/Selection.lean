import Chtholly.SemVer.Precedence

/-!
# The version that is selected

Of a list of versions, the highest one that satisfies a requirement is selected.  It is found one by
one, so this rests on the comparison being a total order.

## Main definitions

* `SemVer.Highest` — the versions that may be selected.

## Main results

* `SemVer.selectFrom_spec` — what the loop keeps.
* `SemVer.selectHighestVersion_spec` — a highest version is selected if there is one.
* `SemVer.precedence` — the order of versions and the selection.
-/

set_option autoImplicit false

namespace Chtholly

namespace SemVer

/-- The text is that of a version that satisfies the requirement. -/
def Candidate (requirement : VersionRequirement) (version : Version) (text : Text) : Prop :=
  parseSemVer text = .ok version ∧ versionSatisfiesRequirement version requirement = true

/-- No candidate of the list is higher. -/
def Highest (requirement : VersionRequirement) (texts : List Text) (version : Version)
    (text : Text) : Prop :=
  text ∈ texts ∧ Candidate requirement version text ∧
    ∀ other ∈ texts, ∀ version', Candidate requirement version' other →
      compareSemVer version' version ≤ 0

variable {lhs rhs : Version}

lemma compareSemVer_neg_iff : compareSemVer lhs rhs < 0 ↔ lhs.key < rhs.key := by
  rw [compareSemVer_eq, order_neg_iff]

lemma compareSemVer_nonpos_iff : compareSemVer lhs rhs ≤ 0 ↔ lhs.key ≤ rhs.key := by
  rw [compareSemVer_eq, order_nonpos_iff]

lemma compareSemVer_swap (lhs rhs : Version) : compareSemVer rhs lhs = -compareSemVer lhs rhs := by
  rw [compareSemVer_eq, compareSemVer_eq, order_swap]

lemma compareSemVer_eq_zero_iff :
    compareSemVer lhs rhs = 0 ↔ lhs.SameCore rhs ∧ lhs.prerelease = rhs.prerelease := by
  rw [compareSemVer_eq, order_eq_zero_iff, key_eq_iff, Version.SameCore, and_assoc, and_assoc]

lemma compareSemVer_trans {a b c : Version} (hab : compareSemVer a b ≤ 0)
    (hbc : compareSemVer b c ≤ 0) : compareSemVer a c ≤ 0 := by
  rw [compareSemVer_nonpos_iff] at *
  exact hab.trans hbc

lemma compareSemVer_total (a b : Version) : compareSemVer a b ≤ 0 ∨ compareSemVer b a ≤ 0 := by
  rw [compareSemVer_nonpos_iff, compareSemVer_nonpos_iff]
  exact le_total _ _

/-- The order on versions that were read is the prescribed one. -/
lemma compareSemVer_neg_iff_precedes {lhsText rhsText : Text}
    (hlhs : parseSemVer lhsText = .ok lhs) (hrhs : parseSemVer rhsText = .ok rhs) :
    compareSemVer lhs rhs < 0 ↔ lhs.Precedes rhs := by
  rw [compareSemVer_neg_iff,
    key_lt_iff_precedes (canonical_of_parse hlhs) (canonical_of_parse hrhs)]

/-! ## The loop -/

/-- What the loop makes of the best version so far: it is kept or replaced by a candidate, and nothing
seen is higher. -/
def Kept (requirement : VersionRequirement) (best : Option (Version × Text)) (texts : List Text)
    (result : Option (Version × Text)) : Prop :=
  (∀ found, result = some found →
    best = some found ∨ (found.2 ∈ texts ∧ Candidate requirement found.1 found.2)) ∧
  ∀ found, best = some found ∨ (found.2 ∈ texts ∧ Candidate requirement found.1 found.2) →
    ∃ highest, result = some highest ∧ compareSemVer found.1 highest.1 ≤ 0

section Selection

variable {requirement : VersionRequirement} {texts : List Text}

lemma compareSemVer_refl (version : Version) : compareSemVer version version ≤ 0 :=
  (compareSemVer_eq_zero_iff.2 ⟨⟨rfl, rfl, rfl⟩, rfl⟩).le

lemma kept_nil (best : Option (Version × Text)) : Kept requirement best [] best := by
  refine ⟨fun found h => .inl h, ?_⟩
  rintro found (rfl | ⟨h, -⟩)
  · exact ⟨found, rfl, compareSemVer_refl _⟩
  · exact absurd h List.not_mem_nil

variable {best : Option (Version × Text)} {text : Text}

lemma Kept.cons {next result : Option (Version × Text)}
    (hfirst : Kept requirement best [text] next) (hrest : Kept requirement next texts result) :
    Kept requirement best (text :: texts) result := by
  constructor
  · intro found h
    obtain h | ⟨hmem, hcandidate⟩ := hrest.1 found h
    · obtain h | ⟨hmem, hcandidate⟩ := hfirst.1 found h
      · exact .inl h
      · rw [List.mem_singleton.1 hmem] at hcandidate ⊢
        exact .inr ⟨.head _, hcandidate⟩
    · exact .inr ⟨.tail _ hmem, hcandidate⟩
  · -- what the first step saw is no higher than what it leaves, nor than the result
    have hup : ∀ found,
        best = some found ∨ (found.2 ∈ [text] ∧ Candidate requirement found.1 found.2) →
          ∃ highest, result = some highest ∧ compareSemVer found.1 highest.1 ≤ 0 := by
      intro found h
      obtain ⟨middle, hmiddle, hle⟩ := hfirst.2 found h
      obtain ⟨highest, hhighest, hle'⟩ := hrest.2 middle (.inl hmiddle)
      exact ⟨highest, hhighest, compareSemVer_trans hle hle'⟩
    rintro found (h | ⟨hmem, hcandidate⟩)
    · exact hup found (.inl h)
    · obtain h | hmem := List.mem_cons.1 hmem
      · exact hup found (.inr ⟨List.mem_singleton.2 h, hcandidate⟩)
      · exact hrest.2 found (.inr ⟨hmem, hcandidate⟩)

/-- A version that does not satisfy the requirement is passed over. -/
lemma kept_of_not_candidate (h : ∀ version, ¬Candidate requirement version text) :
    Kept requirement best [text] best := by
  refine ⟨fun found hfound => .inl hfound, ?_⟩
  rintro ⟨version, text'⟩ (rfl | ⟨hmem, hcandidate⟩)
  · exact ⟨_, rfl, compareSemVer_refl _⟩
  · obtain rfl := List.mem_singleton.1 hmem
    exact absurd hcandidate (h version)

/-- A candidate replaces what is not higher. -/
lemma kept_replace {version : Version} (hcandidate : Candidate requirement version text)
    (h : ∀ found, best = some found → compareSemVer found.1 version ≤ 0) :
    Kept requirement best [text] (some (version, text)) := by
  constructor
  · rintro found ⟨⟩
    exact .inr ⟨.head _, hcandidate⟩
  · rintro ⟨other, text'⟩ (hbest | ⟨hmem, hother⟩)
    · exact ⟨_, rfl, h _ hbest⟩
    · obtain rfl := List.mem_singleton.1 hmem
      obtain rfl := Except.ok.inj (hcandidate.1.symm.trans hother.1)
      exact ⟨_, rfl, compareSemVer_refl _⟩

/-- A version that is at least as high as a candidate stays. -/
lemma kept_stay {highest version : Version} {text' : Text}
    (hcandidate : Candidate requirement version text) (h : compareSemVer version highest ≤ 0) :
    Kept requirement (some (highest, text')) [text] (some (highest, text')) := by
  refine ⟨fun found hfound => .inl hfound, ?_⟩
  rintro ⟨other, otherText⟩ (hbest | ⟨hmem, hother⟩)
  · cases hbest
    exact ⟨_, rfl, compareSemVer_refl _⟩
  · obtain rfl := List.mem_singleton.1 hmem
    obtain rfl := Except.ok.inj (hcandidate.1.symm.trans hother.1)
    exact ⟨_, rfl, h⟩

theorem selectFrom_spec (htexts : ∀ text ∈ texts, ∃ version, parseSemVer text = .ok version)
    (best : Option (Version × Text)) :
    ∃ result, selectFrom requirement best texts = .ok result ∧
      Kept requirement best texts result := by
  induction texts generalizing best with
  | nil => exact ⟨best, rfl, kept_nil best⟩
  | cons text texts ih =>
    obtain ⟨version, hversion⟩ := htexts text (.head _)
    have ih := ih fun other hother => htexts other (.tail _ hother)
    have hstep : ∀ next, selectFrom requirement best (text :: texts) =
        selectFrom requirement next texts → Kept requirement best [text] next →
          ∃ result, selectFrom requirement best (text :: texts) = .ok result ∧
            Kept requirement best (text :: texts) result := by
      intro next hnext hkept
      obtain ⟨result, hresult, hrest⟩ := ih next
      exact ⟨result, hnext.trans hresult, hkept.cons hrest⟩
    cases hsatisfies : versionSatisfiesRequirement version requirement with
    | false =>
      apply hstep best
      · rw [selectFrom, hversion]
        simp only [hsatisfies, if_true]
      · apply kept_of_not_candidate
        rintro other ⟨hother, h⟩
        obtain rfl := Except.ok.inj (hversion.symm.trans hother)
        exact Bool.false_ne_true (hsatisfies.symm.trans h)
    | true =>
      cases best with
      | none =>
        apply hstep (some (version, text))
        · rw [selectFrom, hversion]
          simp only [hsatisfies, Bool.true_eq_false, if_false]
        · exact kept_replace ⟨hversion, hsatisfies⟩ nofun
      | some highest =>
        obtain ⟨highest, highestText⟩ := highest
        by_cases hlt : 0 < compareSemVer version highest
        · apply hstep (some (version, text))
          · rw [selectFrom, hversion]
            simp only [hsatisfies, Bool.true_eq_false, if_false, if_pos hlt]
          · apply kept_replace ⟨hversion, hsatisfies⟩
            rintro found ⟨⟩
            show compareSemVer highest version ≤ 0
            rw [compareSemVer_swap version highest]
            omega
        · apply hstep (some (highest, highestText))
          · rw [selectFrom, hversion]
            simp only [hsatisfies, Bool.true_eq_false, if_false, if_neg hlt]
          · exact kept_stay ⟨hversion, hsatisfies⟩ (not_lt.1 hlt)

/-- A highest candidate is selected, and there is an error when there is no candidate. -/
theorem selectHighestVersion_spec
    (htexts : ∀ text ∈ texts, ∃ version, parseSemVer text = .ok version) :
    ((∃ version, ∃ text ∈ texts, Candidate requirement version text) →
      ∃ version text, selectHighestVersion texts requirement = .ok text ∧
        Highest requirement texts version text) ∧
    ((¬∃ version, ∃ text ∈ texts, Candidate requirement version text) →
      ∃ message, selectHighestVersion texts requirement = .error message) := by
  obtain ⟨result, hresult, hfrom, hhighest⟩ := @selectFrom_spec requirement texts htexts none
  unfold selectHighestVersion
  rw [hresult]
  constructor
  · rintro ⟨version, text, hmem, hcandidate⟩
    obtain ⟨⟨highest, highestText⟩, rfl, -⟩ := hhighest (version, text) (.inr ⟨hmem, hcandidate⟩)
    obtain h | ⟨hmem, hcandidate⟩ := hfrom _ rfl
    · cases h
    · refine ⟨highest, highestText, rfl, hmem, hcandidate, ?_⟩
      intro other hother version' hversion'
      obtain ⟨_, ⟨⟩, hle⟩ := hhighest (version', other) (.inr ⟨hother, hversion'⟩)
      exact hle
  · intro hnone
    cases result with
    | none => exact ⟨_, rfl⟩
    | some found =>
      obtain h | ⟨hmem, hcandidate⟩ := hfrom found rfl
      · cases h
      · exact absurd ⟨found.1, found.2, hmem, hcandidate⟩ hnone

/-- Highest candidates of lists with the same members have the same precedence. -/
lemma Highest.compare_eq_zero {others : List Text} {lhs rhs : Version} {lhsText rhsText : Text}
    (hperm : texts.Perm others) (hlhs : Highest requirement texts lhs lhsText)
    (hrhs : Highest requirement others rhs rhsText) : compareSemVer lhs rhs = 0 := by
  have hle := hrhs.2.2 lhsText (hperm.mem_iff.1 hlhs.1) lhs hlhs.2.1
  have hge := hlhs.2.2 rhsText (hperm.mem_iff.2 hrhs.1) rhs hrhs.2.1
  rw [compareSemVer_swap] at hge
  omega

end Selection

/-- Versions that were read are totally ordered as prescribed, up to their build metadata; of a list of
versions a highest candidate is selected, whatever the order of the list. -/
theorem precedence {aText bText : Text} {a b c : Version} {texts : List Text}
    {requirement : VersionRequirement} (ha : parseSemVer aText = .ok a)
    (hb : parseSemVer bText = .ok b)
    (htexts : ∀ text ∈ texts, ∃ version, parseSemVer text = .ok version) :
    ((compareSemVer b a).sign = -(compareSemVer a b).sign) ∧
    (compareSemVer a b ≤ 0 → compareSemVer b c ≤ 0 → compareSemVer a c ≤ 0) ∧
    (compareSemVer a b ≤ 0 ∨ compareSemVer b a ≤ 0) ∧
    (compareSemVer a b < 0 ↔ a.Precedes b) ∧
    (compareSemVer a b = 0 ↔ a.SameCore b ∧ a.prerelease = b.prerelease) ∧
    ((∃ version, ∃ text ∈ texts, Candidate requirement version text) →
      ∃ version text, selectHighestVersion texts requirement = .ok text ∧
        Highest requirement texts version text ∧
        ∀ others, texts.Perm others → ∃ version' text',
          selectHighestVersion others requirement = .ok text' ∧
            Highest requirement others version' text' ∧ compareSemVer version version' = 0) ∧
    ((¬∃ version, ∃ text ∈ texts, Candidate requirement version text) →
      ∃ message, selectHighestVersion texts requirement = .error message) := by
  refine ⟨?_, compareSemVer_trans, compareSemVer_total a b, compareSemVer_neg_iff_precedes ha hb,
    compareSemVer_eq_zero_iff, ?_, (selectHighestVersion_spec htexts).2⟩
  · rw [compareSemVer_swap a b, Int.sign_neg]
  · intro hcandidate
    obtain ⟨version, text, hselect, hhighest⟩ := (selectHighestVersion_spec htexts).1 hcandidate
    refine ⟨version, text, hselect, hhighest, fun others hperm => ?_⟩
    have hothers : ∀ text ∈ others, ∃ version, parseSemVer text = .ok version :=
      fun other hother => htexts other (hperm.mem_iff.2 hother)
    have hcandidate' : ∃ version, ∃ text ∈ others, Candidate requirement version text :=
      hcandidate.imp fun version => Exists.imp fun text h => ⟨hperm.mem_iff.1 h.1, h.2⟩
    obtain ⟨version', text', hselect', hhighest'⟩ :=
      (selectHighestVersion_spec hothers).1 hcandidate'
    exact ⟨version', text', hselect', hhighest', hhighest.compare_eq_zero hperm hhighest'⟩

/-- `1.0.0` comes after `1.0.0-rc.1` and is selected. -/
theorem precedence_release :
    Version.Precedes { major := 1, prerelease := "rc.1".toList } { major := 1 } ∧
      ∃ text, selectHighestVersion ["1.0.0".toList, "1.0.0-rc.1".toList] ⟨"^1.0.0-a".toList⟩ =
        .ok text := by
  have ha : parseSemVer "1.0.0-rc.1".toList =
      .ok { major := 1, prerelease := "rc.1".toList } := by decide
  have hb : parseSemVer "1.0.0".toList = .ok { major := 1 } := by decide
  have htexts : ∀ text ∈ ["1.0.0".toList, "1.0.0-rc.1".toList],
      ∃ version, parseSemVer text = .ok version := by
    rw [List.forall_mem_cons, List.forall_mem_singleton]
    exact ⟨⟨_, hb⟩, ⟨_, ha⟩⟩
  have hsatisfies : versionSatisfiesRequirement { major := 1 } ⟨"^1.0.0-a".toList⟩ = true := by
    decide
  have h := @precedence _ _ _ _ { major := 1 } _ ⟨"^1.0.0-a".toList⟩ ha hb htexts
  obtain ⟨-, text, hselect, -, -⟩ := h.2.2.2.2.2.1 ⟨_, _, .head _, hb, hsatisfies⟩
  exact ⟨h.2.2.2.1.1 (by decide), text, hselect⟩

end SemVer

end Chtholly
