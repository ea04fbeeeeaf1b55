import Chtholly.SemIR.Run

set_option autoImplicit false

/-!
# The exits of structured code

Which exits a fragment of code has, read off its syntax. A condition that is a literal decides its
branch, every other condition can go both ways, and an unrecoverable failure is never left. The
result is exact: an exit that a run of some machine takes is listed, and each listed exit is taken
by a run of the machine whose operations may do anything.

## Main definitions

* `Chtholly.Inst.exits`, `Chtholly.Block.exits`, `Chtholly.Frag.exits` — the exits of a fragment.
* `Chtholly.Machine.free` — the machine in which every operation may complete and every condition
  that is not a literal may read as true and as false.

## Main results

* `Chtholly.Run.exits` — a run is left by one of the exits of its fragment.
* `Chtholly.Inst.exists_run`, `Chtholly.Block.exists_run` — every exit is taken by a free run.
-/

namespace Chtholly

/-! ## Conditions -/

/-- The truth values a condition can have: both, unless it is a literal. -/
def Value.mayBe : Value → Bool → Bool
  | .boolLiteral _ v, b => v == b
  | _, _ => true

/-- The truth values the result of a condition block can have. -/
def Block.mayBe (c : Block) (b : Bool) : Bool :=
  match c.result? with
  | some (.value v) => v.mayBe b
  | _ => true

/-- A condition only reads as a value it can have. -/
lemma Machine.mayBe_of_truth {σ : Type} (M : Machine σ) {v : Value} {s : σ} {b : Bool}
    (h : M.truth v s b) : v.mayBe b = true := by
  cases v with
  | boolLiteral i w =>
    have hb : b = w := M.truth_literal h
    simp [Value.mayBe, hb]
  | _ => rfl

/-- A condition block only reads as a value it can have. -/
lemma Machine.mayBe_of_test {σ : Type} (M : Machine σ) {c : Block} {s : σ} {b : Bool}
    (h : M.test c s b) : c.mayBe b = true := by
  unfold Machine.test at h
  unfold Block.mayBe
  split
  · next v hv =>
    rw [hv] at h
    exact M.mayBe_of_truth h
  · rfl

/-! ## Exits -/

/-- The exit of a loop body that leaves the loop by the given exit. -/
def Exit.inner : Exit → Exit
  | .normal => .brk 0
  | .brk n => .brk (n + 1)
  | .cont n => .cont (n + 1)
  | .ret => .ret
  | .cut => .cut

/-- An exit that leaves the loop of a body is the `inner` one of the exit it becomes. -/
lemma Exit.eq_inner_of_outer {e e' : Exit} (h : e.outer = some e') : e = e'.inner := by
  rcases e with _ | n | n | _ | _
  · simp [Exit.outer] at h
  · cases n with
    | zero => simp [Exit.outer] at h
    | succ n =>
      obtain rfl : Exit.brk n = e' := by simpa [Exit.outer] using h
      rfl
  · cases n with
    | zero => simp [Exit.outer] at h
    | succ n =>
      obtain rfl : Exit.cont n = e' := by simpa [Exit.outer] using h
      rfl
  · obtain rfl : Exit.ret = e' := by simpa [Exit.outer] using h
    rfl
  · obtain rfl : Exit.cut = e' := by simpa [Exit.outer] using h
    rfl

/-- The `inner` exit of an exit other than the end of the loop leaves the loop by it. -/
lemma Exit.outer_inner {e : Exit} (h : e ≠ .normal) : e.inner.outer = some e := by
  rcases e with _ | n | n | _ | _
  · exact absurd rfl h
  all_goals rfl

/-- The `inner` exit of a completed run is one of a completed run. -/
lemma Exit.inner_ne_cut {e : Exit} (h : e ≠ .cut) : e.inner ≠ .cut := by
  rcases e with _ | n | n | _ | _
  · simp [Exit.inner]
  · simp [Exit.inner]
  · simp [Exit.inner]
  · simp [Exit.inner]
  · exact absurd rfl h

mutual

/-- The exits of an instruction. A deferred block never runs where it stands; its exits are those
of the list it stands in. -/
def Inst.exits : Inst → Exit → Bool
  | .value _, e | .declareUninitialized .., e | .parameter .., e | .bindName .., e
  | .assign .., e | .extendTemporary .., e | .endFullExpression .., e | .other _, e =>
    e == .normal
  | .unrecoverableFailure _, _ => false
  | .ret .., e => e == .ret
  | .brk _ n, e => e == .brk n
  | .cont _ n, e => e == .cont n
  | .defer .., _ => false
  | .ifInst _ _ [], _ => false
  | .ifInst _ c [a], e => c.mayBe true && a.exits e || c.mayBe false && e == .normal
  | .ifInst _ c (a :: b :: _), e => c.mayBe true && a.exits e || c.mayBe false && b.exits e
  | .scopedBlock _ b, e | .taskScope _ b, e => b.exits e
  | .whileLoop _ c b, e =>
    e == .normal && c.exits .normal && c.mayBe false || e != .normal && c.exits e ||
      c.exits .normal && c.mayBe true && b.exits e.inner
  | .forLoop _ i c p b, e =>
    e != .normal && i.exits e ||
      i.exits .normal &&
        (e == .normal && c.exits .normal && c.mayBe false || e != .normal && c.exits e ||
          c.exits .normal && c.mayBe true &&
            (b.exits e.inner ||
              (b.exits .normal || b.exits (.cont 0)) && e != .normal && p.exits e))
  | .doWhile _ c b, e =>
    b.exits e.inner ||
      (b.exits .normal || b.exits (.cont 0)) &&
        (e == .normal && c.exits .normal && c.mayBe false || e != .normal && c.exits e)
  | .switch _ _ arms, e => exitsArms arms e

/-- The exits of a block. -/
def Block.exits : Block → Exit → Bool
  | .mk _ l, e => exitsList l e

/-- The exits of a list of instructions: those of its first instruction and, when that can
complete, those of the others. After a deferred block they are the exits of the rest, provided the
deferred block can complete. -/
def exitsList : List Inst → Exit → Bool
  | [], e => e == .normal
  | .defer _ d :: l, e => exitsList l e && d.exits .normal
  | i :: l, e => e != .normal && i.exits e || i.exits .normal && exitsList l e

/-- The exits of the arms of a switch. -/
def exitsArms : List (Int × Block) → Exit → Bool
  | [], _ => false
  | (_, b) :: arms, e => b.exits e || exitsArms arms e

end

/-- The exits of a fragment. -/
def Frag.exits : Frag → Exit → Bool
  | .inst i, e => i.exits e
  | .insts l, e => exitsList l e
  | .block b, e => b.exits e
  | .whileFrom c b, e =>
    e == .normal && c.exits .normal && c.mayBe false || e != .normal && c.exits e ||
      c.exits .normal && c.mayBe true && b.exits e.inner
  | .forFrom _ c p b, e =>
    e == .normal && c.exits .normal && c.mayBe false || e != .normal && c.exits e ||
      c.exits .normal && c.mayBe true &&
        (b.exits e.inner ||
          (b.exits .normal || b.exits (.cont 0)) && e != .normal && p.exits e)
  | .doFrom c b, e =>
    b.exits e.inner ||
      (b.exits .normal || b.exits (.cont 0)) &&
        (e == .normal && c.exits .normal && c.mayBe false || e != .normal && c.exits e)

/-- A block has the exits of its instructions. -/
@[simp] lemma exitsList_insts (b : Block) (e : Exit) : exitsList b.insts e = b.exits e := by
  cases b with
  | mk i l => simp [Block.exits]

/-- A list with a first instruction that is no deferred block. -/
lemma exitsList_cons {i : Inst} (hd : ∀ id b, i ≠ .defer id b) (l : List Inst) (e : Exit) :
    exitsList (i :: l) e = (e != .normal && i.exits e || i.exits .normal && exitsList l e) := by
  rw [exitsList]
  exact hd

/-- A switch has the exits of its arms. -/
lemma exitsArms_eq_true {arms : List (Int × Block)} {e : Exit} :
    exitsArms arms e = true ↔ ∃ a ∈ arms, a.2.exits e = true := by
  induction arms with
  | nil => simp [exitsArms]
  | cons a arms ih => cases a with | mk k b => simp [exitsArms, ih]

/-- A straight-line instruction completes. -/
lemma Inst.exits_of_straightLine {i : Inst} (h : i.straightLine = true) (e : Exit) :
    i.exits e = (e == .normal) := by
  cases i <;> first | rfl | simp [Inst.straightLine] at h

/-! ## Every run is left by an exit of its fragment -/

/-- **Runs are left by the exits of their fragment.**

**Proof sketch.** Induction on the run. Each rule is one disjunct of the definition of the exits;
a loop that goes around once more is left by the exit of the remaining run, which the induction
hypothesis gives for the same loop. -/
theorem Run.exits {σ : Type} {M : Machine σ} {f : Frag} {s s' : σ} {t : List (InstId × σ)}
    {e : Exit} (h : Run M f s t e s') (he : e ≠ .cut) : f.exits e = true := by
  induction h with
  | cut | reached | fail | deferredCut | deferCut => exact absurd rfl he
  | nil => rfl
  | seq hd _ _ ih ih' =>
    have h₁ := ih (by simp)
    have h₂ := ih' he
    simp only [Frag.exits] at h₁ h₂ ⊢
    simp [exitsList_cons hd, h₁, h₂]
  | stop hd hn _ ih =>
    have h₁ := ih he
    simp only [Frag.exits] at h₁ ⊢
    simp [exitsList_cons hd, h₁, hn]
  | deferred _ _ _ ih ih' =>
    have h₁ := ih he
    have h₂ := ih' (by simp)
    simp only [Frag.exits] at h₁ h₂ ⊢
    simp [exitsList, h₁, h₂]
  | step hi _ => simp [Frag.exits, Inst.exits_of_straightLine hi]
  | ret _ | brk _ | cont _ => simp [Frag.exits, Inst.exits]
  | block _ _ ih | blockOut _ _ ih => simpa [Frag.exits] using ih he
  | scopedBlock _ ih | taskScope _ ih => simpa [Frag.exits, Inst.exits] using ih he
  | @ifThen _ c a arms _ _ _ _ hc _ ih =>
    have h₁ := ih he
    have h₂ := M.mayBe_of_truth hc
    simp only [Frag.exits] at h₁ ⊢
    cases arms <;> simp [Inst.exits, h₁, h₂]
  | ifElse hc _ ih =>
    have h₁ := ih he
    have h₂ := M.mayBe_of_truth hc
    simp only [Frag.exits] at h₁ ⊢
    simp [Inst.exits, h₁, h₂]
  | ifSkip hc => simp [Frag.exits, Inst.exits, M.mayBe_of_truth hc]
  | switch hk _ _ ih =>
    have h₁ := ih he
    simp only [Frag.exits, Inst.exits] at h₁ ⊢
    exact exitsArms_eq_true.2 ⟨_, hk, h₁⟩
  | whileLoop _ ih | doWhile _ ih => simpa [Frag.exits, Inst.exits] using ih he
  | whileExit hc _ ih =>
    have h₁ := ih (by simp)
    simp only [Frag.exits, exitsList_insts] at h₁ ⊢
    simp [h₁, M.mayBe_of_test hc]
  | forExit hc _ _ ih =>
    have h₁ := ih (by simp)
    simp only [Frag.exits, exitsList_insts] at h₁ ⊢
    simp [h₁, M.mayBe_of_test hc]
  | whileCond hn _ ih | forCond hn _ ih =>
    have h₁ := ih he
    simp only [Frag.exits, exitsList_insts] at h₁ ⊢
    simp [h₁, hn]
  | whileNext _ _ _ _ _ _ _ ih => exact ih he
  | forNext _ _ _ _ _ _ _ _ _ ih => exact ih he
  | doNext _ _ _ _ _ _ _ ih => exact ih he
  | whileBreak hc _ _ ih ih' =>
    have h₁ := ih (by simp)
    have h₂ := ih' (by simp)
    simp only [Frag.exits, exitsList_insts] at h₁ h₂ ⊢
    simp [h₁, h₂, M.mayBe_of_test hc, Exit.inner]
  | forBreak hc _ _ ih ih' =>
    have h₁ := ih (by simp)
    have h₂ := ih' (by simp)
    simp only [Frag.exits, exitsList_insts] at h₁ h₂ ⊢
    simp [h₁, h₂, M.mayBe_of_test hc, Exit.inner]
  | whileOut hc ho _ _ ih ih' =>
    have h₁ := ih (by simp)
    obtain rfl := Exit.eq_inner_of_outer ho
    have h₂ := ih' (Exit.inner_ne_cut he)
    simp only [Frag.exits, exitsList_insts] at h₁ h₂ ⊢
    simp [h₁, h₂, M.mayBe_of_test hc]
  | forOut hc ho _ _ ih ih' =>
    have h₁ := ih (by simp)
    obtain rfl := Exit.eq_inner_of_outer ho
    have h₂ := ih' (Exit.inner_ne_cut he)
    simp only [Frag.exits, exitsList_insts] at h₁ h₂ ⊢
    simp [h₁, h₂, M.mayBe_of_test hc]
  | forLoop _ _ ih ih' =>
    have h₁ := ih (by simp)
    have h₂ := ih' he
    simp only [Frag.exits, exitsList_insts] at h₁ h₂ ⊢
    simp only [Inst.exits, h₁, h₂, Bool.true_and, Bool.or_true]
  | forInit hn _ ih =>
    have h₁ := ih he
    simp only [Frag.exits, exitsList_insts] at h₁ ⊢
    simp [Inst.exits, h₁, hn]
  | forStep hc hb hn _ _ _ ih ih' ih'' =>
    have h₁ := ih (by simp)
    have h₃ := ih'' he
    rcases hb with rfl | rfl
    · have h₂ := ih' (by simp)
      simp only [Frag.exits, exitsList_insts] at h₁ h₂ h₃ ⊢
      simp [h₁, h₂, h₃, hn, M.mayBe_of_test hc]
    · have h₂ := ih' (by simp)
      simp only [Frag.exits, exitsList_insts] at h₁ h₂ h₃ ⊢
      simp [h₁, h₂, h₃, hn, M.mayBe_of_test hc]
  | doExit hb hc _ _ ih ih' =>
    have h₂ := ih' (by simp)
    rcases hb with rfl | rfl
    · have h₁ := ih (by simp)
      simp only [Frag.exits, exitsList_insts] at h₁ h₂ ⊢
      simp [h₁, h₂, M.mayBe_of_test hc]
    · have h₁ := ih (by simp)
      simp only [Frag.exits, exitsList_insts] at h₁ h₂ ⊢
      simp [h₁, h₂, M.mayBe_of_test hc]
  | doCond hb hn _ _ ih ih' =>
    have h₂ := ih' he
    rcases hb with rfl | rfl
    · have h₁ := ih (by simp)
      simp only [Frag.exits, exitsList_insts] at h₁ h₂ ⊢
      simp [h₁, h₂, hn]
    · have h₁ := ih (by simp)
      simp only [Frag.exits, exitsList_insts] at h₁ h₂ ⊢
      simp [h₁, h₂, hn]
  | doBreak _ ih =>
    have h₁ := ih (by simp)
    simp only [Frag.exits] at h₁ ⊢
    simp [h₁, Exit.inner]
  | doOut ho _ ih =>
    obtain rfl := Exit.eq_inner_of_outer ho
    have h₁ := ih (Exit.inner_ne_cut he)
    simp only [Frag.exits] at h₁ ⊢
    simp [h₁]

/-! ## Every exit is taken by a run of the free machine -/

/-- The machine in which every operation may complete and every condition may read as any value it
can have. -/
def Machine.free : Machine Unit where
  step _ _ _ := True
  truth v _ b := v.mayBe b = true
  selects _ _ _ := True
  leave _ _ _ := True
  edge _ _ _ := True
  truth_literal h := (beq_iff_eq.1 h).symm

/-- A condition block of the free machine reads as any value it can have. -/
lemma Machine.free_test {c : Block} {b : Bool} (h : c.mayBe b = true) :
    Machine.free.test c () b := by
  unfold Block.mayBe at h
  unfold Machine.test
  split
  · next v hv =>
    rw [hv] at h
    exact h
  · trivial

/-- The free machine takes a fragment to an exit. -/
def Frag.Takes (f : Frag) (e : Exit) : Prop := ∃ t, Run Machine.free f () t e ()

/-- A list of instructions that starts with no deferred block. -/
lemma Frag.Takes.cons {i : Inst} {l : List Inst} {e : Exit} (hd : ∀ id b, i ≠ .defer id b)
    (hi : ∀ e', e' ≠ .cut → i.exits e' = true → (Frag.inst i).Takes e') (he : e ≠ .cut)
    (hl : exitsList l e = true → (Frag.insts l).Takes e) (h : exitsList (i :: l) e = true) :
    (Frag.insts (i :: l)).Takes e := by
  rw [exitsList_cons hd] at h
  simp only [Bool.or_eq_true, Bool.and_eq_true, bne_iff_ne] at h
  rcases h with ⟨hn, h⟩ | ⟨h₁, h₂⟩
  · obtain ⟨t, r⟩ := hi e he h
    exact ⟨t, .stop hd hn r⟩
  · obtain ⟨t, r⟩ := hi .normal (by simp) h₁
    obtain ⟨t', r'⟩ := hl h₂
    exact ⟨t ++ t', .seq hd r r'⟩

/-- A block is left the way its instructions are. -/
lemma Frag.Takes.block {b : Block} {e : Exit} (h : (Frag.insts b.insts).Takes e) :
    (Frag.block b).Takes e := by
  obtain ⟨t, r⟩ := h
  by_cases hn : e = .normal
  · subst hn
    exact ⟨t, .block r trivial⟩
  · exact ⟨t, .blockOut hn r⟩

section Loops

variable {i c p b : Block}
  (hi : ∀ e, e ≠ .cut → i.exits e = true → (Frag.insts i.insts).Takes e)
  (hc : ∀ e, e ≠ .cut → c.exits e = true → (Frag.insts c.insts).Takes e)
  (hp : ∀ e, e ≠ .cut → p.exits e = true → (Frag.insts p.insts).Takes e)
  (hb : ∀ e, e ≠ .cut → b.exits e = true → (Frag.insts b.insts).Takes e)

include hc hb in
/-- The exits of a `While` are taken. -/
lemma Frag.Takes.whileFrom {e : Exit} (he : e ≠ .cut)
    (h : (Frag.whileFrom c b).exits e = true) : (Frag.whileFrom c b).Takes e := by
  simp only [Frag.exits, Bool.or_eq_true, Bool.and_eq_true, beq_iff_eq, bne_iff_ne] at h
  rcases h with (⟨⟨rfl, h⟩, hm⟩ | ⟨hn, h⟩) | ⟨⟨h, hm⟩, h'⟩
  · obtain ⟨t, r⟩ := hc .normal (by simp) h
    exact ⟨t, .whileExit (Machine.free_test hm) r⟩
  · obtain ⟨t, r⟩ := hc e he h
    exact ⟨t, .whileCond hn r⟩
  · obtain ⟨t, r⟩ := hc .normal (by simp) h
    obtain ⟨t', r'⟩ := (hb _ (Exit.inner_ne_cut he) h').block
    by_cases hn : e = .normal
    · subst hn
      exact ⟨t ++ t', .whileBreak (Machine.free_test hm) r r'⟩
    · exact ⟨t ++ t', .whileOut (Machine.free_test hm) (Exit.outer_inner hn) r r'⟩

include hb in
/-- A body that may reach the end of a pass does so. -/
lemma Frag.Takes.endOfPass (h : b.exits .normal = true ∨ b.exits (.cont 0) = true) :
    ∃ e, (e = .normal ∨ e = .cont 0) ∧ (Frag.block b).Takes e := by
  rcases h with h | h
  · exact ⟨.normal, .inl rfl, (hb _ (by simp) h).block⟩
  · exact ⟨.cont 0, .inr rfl, (hb _ (by simp) h).block⟩

include hc hp hb in
/-- The exits of a `For` after its initialiser are taken. -/
lemma Frag.Takes.forFrom {e : Exit} (he : e ≠ .cut)
    (h : (Frag.forFrom i c p b).exits e = true) : (Frag.forFrom i c p b).Takes e := by
  simp only [Frag.exits, Bool.or_eq_true, Bool.and_eq_true, beq_iff_eq, bne_iff_ne] at h
  rcases h with (⟨⟨rfl, h⟩, hm⟩ | ⟨hn, h⟩) | ⟨⟨h, hm⟩, h' | ⟨⟨h', hn⟩, h''⟩⟩
  · obtain ⟨t, r⟩ := hc .normal (by simp) h
    exact ⟨t, .forExit (Machine.free_test hm) r trivial⟩
  · obtain ⟨t, r⟩ := hc e he h
    exact ⟨t, .forCond hn r⟩
  · obtain ⟨t, r⟩ := hc .normal (by simp) h
    obtain ⟨t', r'⟩ := (hb _ (Exit.inner_ne_cut he) h').block
    by_cases hn : e = .normal
    · subst hn
      exact ⟨t ++ t', .forBreak (Machine.free_test hm) r r'⟩
    · exact ⟨t ++ t', .forOut (Machine.free_test hm) (Exit.outer_inner hn) r r'⟩
  · obtain ⟨t, r⟩ := hc .normal (by simp) h
    obtain ⟨e', he', t', r'⟩ := Frag.Takes.endOfPass hb h'
    obtain ⟨u, q⟩ := hp e he h''
    exact ⟨t ++ t' ++ u, .forStep (Machine.free_test hm) he' hn r r' q⟩

include hi hc hp hb in
/-- The exits of a `For` are taken. -/
lemma Frag.Takes.forLoop {id : InstId} {e : Exit} (he : e ≠ .cut)
    (h : (Inst.forLoop id i c p b).exits e = true) :
    (Frag.inst (.forLoop id i c p b)).Takes e := by
  rw [Inst.exits, Bool.or_eq_true, Bool.and_eq_true, Bool.and_eq_true, bne_iff_ne] at h
  rcases h with ⟨hn, h⟩ | ⟨h, h'⟩
  · obtain ⟨t, r⟩ := hi e he h
    exact ⟨_, .forInit hn r⟩
  · obtain ⟨t, r⟩ := hi .normal (by simp) h
    obtain ⟨t', r'⟩ := Frag.Takes.forFrom (i := i) hc hp hb he h'
    exact ⟨_, .forLoop r r'⟩

include hc hb in
/-- The exits of a `DoWhile` are taken. -/
lemma Frag.Takes.doFrom {e : Exit} (he : e ≠ .cut)
    (h : (Frag.doFrom c b).exits e = true) : (Frag.doFrom c b).Takes e := by
  simp only [Frag.exits, Bool.or_eq_true, Bool.and_eq_true, beq_iff_eq, bne_iff_ne] at h
  rcases h with h | ⟨h, ⟨⟨rfl, h'⟩, hm⟩ | ⟨hn, h'⟩⟩
  · obtain ⟨t, r⟩ := (hb _ (Exit.inner_ne_cut he) h).block
    by_cases hn : e = .normal
    · subst hn
      exact ⟨t, .doBreak r⟩
    · exact ⟨t, .doOut (Exit.outer_inner hn) r⟩
  · obtain ⟨e', he', t, r⟩ := Frag.Takes.endOfPass hb h
    obtain ⟨t', r'⟩ := hc .normal (by simp) h'
    exact ⟨t ++ t', .doExit he' (Machine.free_test hm) r r'⟩
  · obtain ⟨e', he', t, r⟩ := Frag.Takes.endOfPass hb h
    obtain ⟨t', r'⟩ := hc e he h'
    exact ⟨t ++ t', .doCond he' hn r r'⟩

end Loops

mutual

/-- **Every exit of an instruction is taken by a free run.**

**Proof sketch.** Structural induction; each disjunct of the definition of the exits is the
premise of one rule of `Run`. -/
theorem Inst.exists_run : ∀ (i : Inst) (e : Exit), e ≠ .cut → i.exits e = true →
    (Frag.inst i).Takes e
  | .value _, e, _, h | .declareUninitialized .., e, _, h | .parameter .., e, _, h
  | .bindName .., e, _, h | .assign .., e, _, h | .extendTemporary .., e, _, h
  | .endFullExpression .., e, _, h | .other _, e, _, h => by
    obtain rfl : e = .normal := by simpa [Inst.exits] using h
    exact ⟨_, .step rfl trivial⟩
  | .unrecoverableFailure _, _, _, h => by simp [Inst.exits] at h
  | .ret .., e, _, h => by
    obtain rfl : e = .ret := by simpa [Inst.exits] using h
    exact ⟨_, .ret trivial⟩
  | .brk _ n, e, _, h => by
    obtain rfl : e = .brk n := by simpa [Inst.exits] using h
    exact ⟨_, .brk trivial⟩
  | .cont _ n, e, _, h => by
    obtain rfl : e = .cont n := by simpa [Inst.exits] using h
    exact ⟨_, .cont trivial⟩
  | .defer .., _, _, h => by simp [Inst.exits] at h
  | .ifInst _ _ [], _, _, h => by simp [Inst.exits] at h
  | .ifInst _ c [a], e, he, h => by
    simp only [Inst.exits, Bool.or_eq_true, Bool.and_eq_true, beq_iff_eq] at h
    rcases h with ⟨hm, h⟩ | ⟨hm, rfl⟩
    · obtain ⟨t, r⟩ := (Block.exists_run a e he h).block
      exact ⟨_, .ifThen hm r⟩
    · exact ⟨_, .ifSkip hm⟩
  | .ifInst _ c (a :: b :: _), e, he, h => by
    simp only [Inst.exits, Bool.or_eq_true, Bool.and_eq_true] at h
    rcases h with ⟨hm, h⟩ | ⟨hm, h⟩
    · obtain ⟨t, r⟩ := (Block.exists_run a e he h).block
      exact ⟨_, .ifThen hm r⟩
    · obtain ⟨t, r⟩ := (Block.exists_run b e he h).block
      exact ⟨_, .ifElse hm r⟩
  | .scopedBlock _ b, e, he, h => by
    obtain ⟨t, r⟩ := (Block.exists_run b e he (by simpa [Inst.exits] using h)).block
    exact ⟨_, .scopedBlock r⟩
  | .taskScope _ b, e, he, h => by
    obtain ⟨t, r⟩ := (Block.exists_run b e he (by simpa [Inst.exits] using h)).block
    exact ⟨_, .taskScope r⟩
  | .whileLoop _ c b, e, he, h => by
    obtain ⟨t, r⟩ := Frag.Takes.whileFrom (Block.exists_run c) (Block.exists_run b) he
      (by rw [Inst.exits] at h; exact h)
    exact ⟨_, .whileLoop r⟩
  | .forLoop _ i c p b, _, he, h =>
    Frag.Takes.forLoop (Block.exists_run i) (Block.exists_run c) (Block.exists_run p)
      (Block.exists_run b) he h
  | .doWhile _ c b, e, he, h => by
    obtain ⟨t, r⟩ := Frag.Takes.doFrom (Block.exists_run c) (Block.exists_run b) he
      (by rw [Inst.exits] at h; exact h)
    exact ⟨_, .doWhile r⟩
  | .switch _ _ arms, e, he, h => by
    obtain ⟨a, ha, t, r⟩ := exists_run_arm arms e he (by simpa [Inst.exits] using h)
    exact ⟨_, .switch ha trivial r⟩

/-- **Every exit of a block is taken by a free run.** -/
theorem Block.exists_run : ∀ (b : Block) (e : Exit), e ≠ .cut → b.exits e = true →
    (Frag.insts b.insts).Takes e
  | .mk _ l, e, he, h => exists_run_list l e he (by simpa [Block.exits] using h)

/-- Every exit of a list of instructions is taken by a free run. -/
lemma exists_run_list : ∀ (l : List Inst) (e : Exit), e ≠ .cut → exitsList l e = true →
    (Frag.insts l).Takes e
  | [], e, _, h => by
    obtain rfl : e = .normal := by simpa [exitsList] using h
    exact ⟨[], .nil⟩
  | i :: l, e, he, h => by
    by_cases hd : ∀ id b, i ≠ .defer id b
    · exact Frag.Takes.cons hd (Inst.exists_run i) he (exists_run_list l e he) h
    · cases i with
      | defer id d =>
        simp only [exitsList, Bool.and_eq_true] at h
        obtain ⟨t, r⟩ := exists_run_list l e he h.1
        obtain ⟨t', r'⟩ := (Block.exists_run d .normal (by simp) h.2).block
        exact ⟨_, .deferred he r r'⟩
      | _ => exact absurd (by simp) hd

/-- Every exit of the arms of a switch is taken by a free run of one of them. -/
lemma exists_run_arm : ∀ (arms : List (Int × Block)) (e : Exit), e ≠ .cut →
    exitsArms arms e = true → ∃ a ∈ arms, (Frag.block a.2).Takes e
  | [], _, _, h => by simp [exitsArms] at h
  | (k, b) :: arms, e, he, h => by
    simp only [exitsArms, Bool.or_eq_true] at h
    rcases h with h | h
    · exact ⟨(k, b), by simp, (Block.exists_run b e he h).block⟩
    · obtain ⟨a, ha, r⟩ := exists_run_arm arms e he h
      exact ⟨a, by simp [ha], r⟩

end

end Chtholly
