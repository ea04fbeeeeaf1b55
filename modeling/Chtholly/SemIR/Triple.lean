import Chtholly.SemIR.Run

set_option autoImplicit false

/-!
# Pre- and postconditions for structured code

Triples for the runs of a fragment. A postcondition has one part for every exit, and a triple also
says what holds of the instructions that a run reaches. Since a run may be cut off anywhere, a triple
is about the finite beginnings of executions: it holds of what an execution does as long as it lasts.

There are no rules for deferred blocks.

## Main definitions

* `Chtholly.Triple` — every run from a state of the precondition meets the postcondition.
* `Chtholly.thenPost`, `Chtholly.bodyPost` — the postconditions of the first of two fragments and of
  the body of a loop.

## Main results

* `Chtholly.Triple.cons`, `Chtholly.Triple.block` — sequences and scopes.
* `Chtholly.Triple.whileFrom`, `Chtholly.Triple.forFrom`, `Chtholly.Triple.doFrom` — the loops, with
  an invariant for each place that a pass goes through.
-/

namespace Chtholly

section

variable {σ : Type}

/-- Every run of the fragment from a state of `P` reaches its instructions as `G` says, and is left in
a state of `Q` for its exit. -/
def Triple (M : Machine σ) (G : InstId → σ → Prop) (P : σ → Prop) (f : Frag)
    (Q : Exit → σ → Prop) : Prop :=
  ∀ ⦃s t e s'⦄, P s → Run M f s t e s' → (∀ x ∈ t, G x.1 x.2) ∧ Q e s'

/-- The postcondition of the first of two fragments: at its end the second one starts. -/
def thenPost (J : σ → Prop) (Q : Exit → σ → Prop) : Exit → σ → Prop
  | .normal => J
  | e => Q e

/-- The postcondition of the body of a loop: at its end and on a continue edge the next part of the
loop starts, a break edge is the end of the loop, and other edges have one loop less to leave. -/
def bodyPost (J : σ → Prop) (Q : Exit → σ → Prop) (e : Exit) : σ → Prop :=
  match e.outer with
  | some e' => Q e'
  | none => if e = .brk 0 then Q .normal else J

lemma thenPost_of_ne {J : σ → Prop} {Q : Exit → σ → Prop} {e : Exit} (he : e ≠ .normal) :
    thenPost J Q e = Q e := by
  cases e with
  | normal => exact absurd rfl he
  | _ => rfl

/-- Only the first of two ends counts. -/
lemma thenPost_thenPost {J J' : σ → Prop} {Q : Exit → σ → Prop} :
    thenPost J (thenPost J' Q) = thenPost J Q := by
  funext e
  cases e <;> rfl

lemma bodyPost_of_outer {J : σ → Prop} {Q : Exit → σ → Prop} {e e' : Exit}
    (he : e.outer = some e') : bodyPost J Q e = Q e' := by
  rw [bodyPost, he]

lemma bodyPost_of_next {J : σ → Prop} {Q : Exit → σ → Prop} {e : Exit}
    (he : e = .normal ∨ e = .cont 0) : bodyPost J Q e = J := by
  rcases he with rfl | rfl
  · rfl
  · rfl

variable {M : Machine σ} {G : InstId → σ → Prop} {P J K : σ → Prop} {Q : Exit → σ → Prop}

lemma forall_mem_cons_trace {i : InstId} {s : σ} {t : List (InstId × σ)} (hi : G i s)
    (ht : ∀ x ∈ t, G x.1 x.2) : ∀ x ∈ (i, s) :: t, G x.1 x.2 := by
  intro x hx
  rcases List.mem_cons.1 hx with rfl | hx
  · exact hi
  · exact ht x hx

lemma forall_mem_append_trace {t u : List (InstId × σ)} (ht : ∀ x ∈ t, G x.1 x.2)
    (hu : ∀ x ∈ u, G x.1 x.2) : ∀ x ∈ t ++ u, G x.1 x.2 := by
  intro x hx
  rcases List.mem_append.1 hx with hx | hx
  · exact ht x hx
  · exact hu x hx

/-- A stronger precondition and a weaker postcondition. -/
lemma Triple.imp {G' : InstId → σ → Prop} {P' : σ → Prop} {Q' : Exit → σ → Prop} {f : Frag}
    (h : Triple M G P f Q) (hP : ∀ s, P' s → P s) (hG : ∀ i s, G i s → G' i s)
    (hQ : ∀ e s, Q e s → Q' e s) : Triple M G' P' f Q' := by
  intro s t e s' hs hrun
  obtain ⟨ht, he⟩ := h (hP s hs) hrun
  exact ⟨fun x hx => hG _ _ (ht x hx), hQ e s' he⟩

lemma thenPost_imp {J' : σ → Prop} {Q' : Exit → σ → Prop} {e : Exit} {s : σ}
    (h : thenPost J Q e s) (hJ : J s → J' s) (hQ : ∀ e, Q e s → Q' e s) : thenPost J' Q' e s := by
  cases e with
  | normal => exact hJ h
  | _ => exact hQ _ h

/-! ## Sequences and scopes -/

lemma Triple.nil (hcut : ∀ s, P s → Q .cut s) (h : ∀ s, P s → Q .normal s) :
    Triple M G P (.insts []) Q := by
  intro s t e s' hs hrun
  cases hrun with
  | cut => exact ⟨by simp, hcut s hs⟩
  | nil => exact ⟨by simp, h s hs⟩

/-- An instruction, then those after it. -/
lemma Triple.cons {i : Inst} {l : List Inst} (hd : ∀ id b, i ≠ .defer id b)
    (hcut : ∀ s, P s → Q .cut s) (h₁ : Triple M G P (.inst i) (thenPost J Q))
    (h₂ : Triple M G J (.insts l) Q) : Triple M G P (.insts (i :: l)) Q := by
  intro s t e s' hs hrun
  cases hrun with
  | cut => exact ⟨by simp, hcut s hs⟩
  | seq _ hi hl =>
    obtain ⟨ht, hj⟩ := h₁ hs hi
    obtain ⟨hu, he⟩ := h₂ hj hl
    exact ⟨forall_mem_append_trace ht hu, he⟩
  | stop _ he hi =>
    obtain ⟨ht, hq⟩ := h₁ hs hi
    rw [thenPost_of_ne he] at hq
    exact ⟨ht, hq⟩
  | deferred => exact absurd rfl (hd _ _)
  | deferredCut => exact absurd rfl (hd _ _)
  | deferCut => exact absurd rfl (hd _ _)

/-- A lexical block. -/
lemma Triple.block {b : Block} (hcut : ∀ s, P s → Q .cut s)
    (h : Triple M G P (.insts b.insts) (thenPost J Q))
    (hleave : ∀ s s', J s → M.leave b.id s s' → Q .normal s') : Triple M G P (.block b) Q := by
  intro s t e s' hs hrun
  cases hrun with
  | cut => exact ⟨by simp, hcut s hs⟩
  | block hl hv =>
    obtain ⟨ht, hj⟩ := h hs hl
    exact ⟨ht, hleave _ _ hj hv⟩
  | blockOut he hl =>
    obtain ⟨ht, hq⟩ := h hs hl
    rw [thenPost_of_ne he] at hq
    exact ⟨ht, hq⟩

/-! ## Loops -/

/-- **While.** `P` holds before the condition and `J` before the body. -/
theorem Triple.whileFrom {c b : Block} (hcut : ∀ s, P s → Q .cut s)
    (hc : Triple M G P (.insts c.insts) (thenPost J Q))
    (hb : Triple M G J (.block b) (bodyPost P Q)) (hexit : ∀ s, J s → Q .normal s) :
    Triple M G P (.whileFrom c b) Q := by
  intro s t e s' hs hrun
  -- every pass starts in a state of `P`, so the induction is on the run with the loop as its index
  generalize hf : Frag.whileFrom c b = f at hrun
  induction hrun with
  | cut => exact ⟨by simp, hcut _ hs⟩
  | whileExit _ hcond =>
    cases hf
    obtain ⟨ht, hj⟩ := hc hs hcond
    exact ⟨ht, hexit _ hj⟩
  | whileCond he hcond =>
    cases hf
    obtain ⟨ht, hq⟩ := hc hs hcond
    rw [thenPost_of_ne he] at hq
    exact ⟨ht, hq⟩
  | whileNext _ he hcond hbody _ _ _ ih =>
    cases hf
    obtain ⟨ht, hj⟩ := hc hs hcond
    obtain ⟨hu, hp⟩ := hb hj hbody
    rw [bodyPost_of_next he] at hp
    obtain ⟨hv, hq⟩ := ih hp rfl
    exact ⟨forall_mem_append_trace (forall_mem_append_trace ht hu) hv, hq⟩
  | whileBreak _ hcond hbody =>
    cases hf
    obtain ⟨ht, hj⟩ := hc hs hcond
    obtain ⟨hu, hq⟩ := hb hj hbody
    exact ⟨forall_mem_append_trace ht hu, hq⟩
  | whileOut _ he hcond hbody =>
    cases hf
    obtain ⟨ht, hj⟩ := hc hs hcond
    obtain ⟨hu, hq⟩ := hb hj hbody
    rw [bodyPost_of_outer he] at hq
    exact ⟨forall_mem_append_trace ht hu, hq⟩
  | _ => cases hf

/-- **For**, after its first clause. `P` holds before the condition, `J` before the body and `K`
before the step. -/
theorem Triple.forFrom {i c p b : Block} (hcut : ∀ s, P s → Q .cut s)
    (hc : Triple M G P (.insts c.insts) (thenPost J Q))
    (hb : Triple M G J (.block b) (bodyPost K Q))
    (hp : Triple M G K (.insts p.insts) (thenPost P Q))
    (hexit : ∀ s s', J s → M.leave i.id s s' → Q .normal s') :
    Triple M G P (.forFrom i c p b) Q := by
  intro s t e s' hs hrun
  generalize hf : Frag.forFrom i c p b = f at hrun
  induction hrun with
  | cut => exact ⟨by simp, hcut _ hs⟩
  | forExit _ hcond hleave =>
    cases hf
    obtain ⟨ht, hj⟩ := hc hs hcond
    exact ⟨ht, hexit _ _ hj hleave⟩
  | forCond he hcond =>
    cases hf
    obtain ⟨ht, hq⟩ := hc hs hcond
    rw [thenPost_of_ne he] at hq
    exact ⟨ht, hq⟩
  | forNext _ he hcond hbody hstep _ _ _ _ ih =>
    cases hf
    obtain ⟨ht, hj⟩ := hc hs hcond
    obtain ⟨hu, hk⟩ := hb hj hbody
    rw [bodyPost_of_next he] at hk
    obtain ⟨hv, hp⟩ := hp hk hstep
    obtain ⟨hw, hq⟩ := ih hp rfl
    exact ⟨forall_mem_append_trace (forall_mem_append_trace (forall_mem_append_trace ht hu) hv) hw,
      hq⟩
  | forStep _ he he' hcond hbody hstep =>
    cases hf
    obtain ⟨ht, hj⟩ := hc hs hcond
    obtain ⟨hu, hk⟩ := hb hj hbody
    rw [bodyPost_of_next he] at hk
    obtain ⟨hv, hq⟩ := hp hk hstep
    rw [thenPost_of_ne he'] at hq
    exact ⟨forall_mem_append_trace (forall_mem_append_trace ht hu) hv, hq⟩
  | forBreak _ hcond hbody =>
    cases hf
    obtain ⟨ht, hj⟩ := hc hs hcond
    obtain ⟨hu, hq⟩ := hb hj hbody
    exact ⟨forall_mem_append_trace ht hu, hq⟩
  | forOut _ he hcond hbody =>
    cases hf
    obtain ⟨ht, hj⟩ := hc hs hcond
    obtain ⟨hu, hq⟩ := hb hj hbody
    rw [bodyPost_of_outer he] at hq
    exact ⟨forall_mem_append_trace ht hu, hq⟩
  | _ => cases hf

/-- **DoWhile.** `P` holds before the body and `K` before the condition. -/
theorem Triple.doFrom {c b : Block} (hcut : ∀ s, P s → Q .cut s)
    (hb : Triple M G P (.block b) (bodyPost K Q))
    (hc : Triple M G K (.insts c.insts) (thenPost J Q)) (hnext : ∀ s, J s → P s)
    (hexit : ∀ s, J s → Q .normal s) : Triple M G P (.doFrom c b) Q := by
  intro s t e s' hs hrun
  generalize hf : Frag.doFrom c b = f at hrun
  induction hrun with
  | cut => exact ⟨by simp, hcut _ hs⟩
  | doExit he _ hbody hcond =>
    cases hf
    obtain ⟨ht, hk⟩ := hb hs hbody
    rw [bodyPost_of_next he] at hk
    obtain ⟨hu, hj⟩ := hc hk hcond
    exact ⟨forall_mem_append_trace ht hu, hexit _ hj⟩
  | doCond he he' hbody hcond =>
    cases hf
    obtain ⟨ht, hk⟩ := hb hs hbody
    rw [bodyPost_of_next he] at hk
    obtain ⟨hu, hq⟩ := hc hk hcond
    rw [thenPost_of_ne he'] at hq
    exact ⟨forall_mem_append_trace ht hu, hq⟩
  | doNext he _ hbody hcond _ _ _ ih =>
    cases hf
    obtain ⟨ht, hk⟩ := hb hs hbody
    rw [bodyPost_of_next he] at hk
    obtain ⟨hu, hj⟩ := hc hk hcond
    obtain ⟨hv, hq⟩ := ih (hnext _ hj) rfl
    exact ⟨forall_mem_append_trace (forall_mem_append_trace ht hu) hv, hq⟩
  | doBreak hbody =>
    cases hf
    exact hb hs hbody
  | doOut he hbody =>
    cases hf
    obtain ⟨ht, hq⟩ := hb hs hbody
    rw [bodyPost_of_outer he] at hq
    exact ⟨ht, hq⟩
  | _ => cases hf

/-! ## Instructions -/

/-- A straight-line instruction. -/
lemma Triple.step {i : Inst} (hi : i.straightLine = true) (hcut : ∀ s, P s → Q .cut s)
    (hG : ∀ s, P s → G i.id s) (h : ∀ s s', P s → M.step i s s' → Q .normal s') :
    Triple M G P (.inst i) Q := by
  intro s t e s' hs hrun
  have hone : ∀ x ∈ [(i.id, s)], G x.1 x.2 := forall_mem_cons_trace (hG s hs) (by simp)
  cases hrun with
  | cut => exact ⟨by simp, hcut s hs⟩
  | step _ hstep => exact ⟨hone, h s s' hs hstep⟩
  | reached => exact ⟨hone, hcut s hs⟩
  | _ => simp [Inst.straightLine] at hi

lemma Triple.unrecoverableFailure {id : InstId} (hcut : ∀ s, P s → Q .cut s)
    (hG : ∀ s, P s → G id s) : Triple M G P (.inst (.unrecoverableFailure id)) Q := by
  intro s t e s' hs hrun
  cases hrun with
  | cut => exact ⟨by simp, hcut s hs⟩
  | step hi => simp [Inst.straightLine] at hi
  | reached hi => simp [Inst.straightLine] at hi
  | fail => exact ⟨forall_mem_cons_trace (hG s hs) (by simp), hcut s hs⟩

/-- An edge to an enclosing loop. -/
lemma Triple.edge {id : InstId} {n : Nat} {k : Bool} (hcut : ∀ s, P s → Q .cut s)
    (hG : ∀ s, P s → G id s)
    (h : ∀ s s', P s → M.edge id s s' → Q (if k then .brk n else .cont n) s') :
    Triple M G P (.inst (if k then .brk id n else .cont id n)) Q := by
  intro s t e s' hs hrun
  have hone : ∀ x ∈ [(id, s)], G x.1 x.2 := forall_mem_cons_trace (hG s hs) (by simp)
  cases k with
  | true =>
    cases hrun with
    | cut => exact ⟨by simp, hcut s hs⟩
    | step hi => simp [Inst.straightLine] at hi
    | reached hi => simp [Inst.straightLine] at hi
    | brk hedge => exact ⟨hone, h s s' hs hedge⟩
  | false =>
    cases hrun with
    | cut => exact ⟨by simp, hcut s hs⟩
    | step hi => simp [Inst.straightLine] at hi
    | reached hi => simp [Inst.straightLine] at hi
    | cont hedge => exact ⟨hone, h s s' hs hedge⟩

lemma Triple.ret {id : InstId} {kind : ReturnKind} {v : Value} (hcut : ∀ s, P s → Q .cut s)
    (hG : ∀ s, P s → G id s) (h : ∀ s s', P s → M.edge id s s' → Q .ret s') :
    Triple M G P (.inst (.ret id kind v)) Q := by
  intro s t e s' hs hrun
  cases hrun with
  | cut => exact ⟨by simp, hcut s hs⟩
  | step hi => simp [Inst.straightLine] at hi
  | reached hi => simp [Inst.straightLine] at hi
  | ret hedge => exact ⟨forall_mem_cons_trace (hG s hs) (by simp), h s s' hs hedge⟩

/-- An instruction that only carries a scope. -/
lemma Triple.scope {id : InstId} {b : Block} {i : Inst}
    (hi : i = .scopedBlock id b ∨ i = .taskScope id b) (hcut : ∀ s, P s → Q .cut s)
    (hG : ∀ s, P s → G id s) (h : Triple M G P (.block b) Q) : Triple M G P (.inst i) Q := by
  intro s t e s' hs hrun
  rcases hi with rfl | rfl
  · cases hrun with
    | cut => exact ⟨by simp, hcut s hs⟩
    | step hi => simp [Inst.straightLine] at hi
    | reached hi => simp [Inst.straightLine] at hi
    | scopedBlock hb =>
      obtain ⟨ht, hq⟩ := h hs hb
      exact ⟨forall_mem_cons_trace (hG s hs) ht, hq⟩
  · cases hrun with
    | cut => exact ⟨by simp, hcut s hs⟩
    | step hi => simp [Inst.straightLine] at hi
    | reached hi => simp [Inst.straightLine] at hi
    | taskScope hb =>
      obtain ⟨ht, hq⟩ := h hs hb
      exact ⟨forall_mem_cons_trace (hG s hs) ht, hq⟩

/-- An `If`: every arm meets the postcondition, and so does passing the only arm by. -/
lemma Triple.ifInst {id : InstId} {v : Value} {arms : List Block} (hcut : ∀ s, P s → Q .cut s)
    (hG : ∀ s, P s → G id s) (harms : ∀ b ∈ arms, Triple M G P (.block b) Q)
    (hskip : arms.length = 1 → ∀ s, P s → Q .normal s) :
    Triple M G P (.inst (.ifInst id v arms)) Q := by
  intro s t e s' hs hrun
  cases hrun with
  | cut => exact ⟨by simp, hcut s hs⟩
  | step hi => simp [Inst.straightLine] at hi
  | reached hi => simp [Inst.straightLine] at hi
  | ifThen _ hb =>
    obtain ⟨ht, hq⟩ := harms _ List.mem_cons_self hs hb
    exact ⟨forall_mem_cons_trace (hG s hs) ht, hq⟩
  | ifElse _ hb =>
    obtain ⟨ht, hq⟩ := harms _ (List.mem_cons_of_mem _ List.mem_cons_self) hs hb
    exact ⟨forall_mem_cons_trace (hG s hs) ht, hq⟩
  | ifSkip => exact ⟨forall_mem_cons_trace (hG s hs) (by simp), hskip rfl s hs⟩

/-- A `Switch`: every arm meets the postcondition where it may be selected. -/
lemma Triple.switch {id : InstId} {v : Value} {arms : List (Int × Block)}
    (hcut : ∀ s, P s → Q .cut s) (hG : ∀ s, P s → G id s)
    (harms : ∀ a ∈ arms, Triple M G (fun s => P s ∧ M.selects v s a.1) (.block a.2) Q) :
    Triple M G P (.inst (.switch id v arms)) Q := by
  intro s t e s' hs hrun
  cases hrun with
  | cut => exact ⟨by simp, hcut s hs⟩
  | step hi => simp [Inst.straightLine] at hi
  | reached hi => simp [Inst.straightLine] at hi
  | switch hk hsel hb =>
    obtain ⟨ht, hq⟩ := harms _ hk ⟨hs, hsel⟩ hb
    exact ⟨forall_mem_cons_trace (hG s hs) ht, hq⟩

lemma Triple.whileLoop {id : InstId} {c b : Block} (hcut : ∀ s, P s → Q .cut s)
    (hG : ∀ s, P s → G id s) (h : Triple M G P (.whileFrom c b) Q) :
    Triple M G P (.inst (.whileLoop id c b)) Q := by
  intro s t e s' hs hrun
  cases hrun with
  | cut => exact ⟨by simp, hcut s hs⟩
  | step hi => simp [Inst.straightLine] at hi
  | reached hi => simp [Inst.straightLine] at hi
  | whileLoop hl =>
    obtain ⟨ht, hq⟩ := h hs hl
    exact ⟨forall_mem_cons_trace (hG s hs) ht, hq⟩

lemma Triple.doWhile {id : InstId} {c b : Block} (hcut : ∀ s, P s → Q .cut s)
    (hG : ∀ s, P s → G id s) (h : Triple M G P (.doFrom c b) Q) :
    Triple M G P (.inst (.doWhile id c b)) Q := by
  intro s t e s' hs hrun
  cases hrun with
  | cut => exact ⟨by simp, hcut s hs⟩
  | step hi => simp [Inst.straightLine] at hi
  | reached hi => simp [Inst.straightLine] at hi
  | doWhile hl =>
    obtain ⟨ht, hq⟩ := h hs hl
    exact ⟨forall_mem_cons_trace (hG s hs) ht, hq⟩

/-- A `For`: its first clause, then the passes. -/
lemma Triple.forLoop {id : InstId} {i c p b : Block} (hcut : ∀ s, P s → Q .cut s)
    (hG : ∀ s, P s → G id s) (hi : Triple M G P (.insts i.insts) (thenPost J Q))
    (h : Triple M G J (.forFrom i c p b) Q) : Triple M G P (.inst (.forLoop id i c p b)) Q := by
  intro s t e s' hs hrun
  cases hrun with
  | cut => exact ⟨by simp, hcut s hs⟩
  | step hi => simp [Inst.straightLine] at hi
  | reached hi => simp [Inst.straightLine] at hi
  | forLoop hinit hl =>
    obtain ⟨ht, hj⟩ := hi hs hinit
    obtain ⟨hu, hq⟩ := h hj hl
    exact ⟨forall_mem_append_trace (forall_mem_cons_trace (hG s hs) ht) hu, hq⟩
  | forInit he hinit =>
    obtain ⟨ht, hq⟩ := hi hs hinit
    rw [thenPost_of_ne he] at hq
    exact ⟨forall_mem_cons_trace (hG s hs) ht, hq⟩

end

end Chtholly
