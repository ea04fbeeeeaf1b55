import Chtholly.Outcome.Descriptor

/-!
# Runs of outcomes

A run starts in the pending state and follows the transitions of a descriptor.  It should move its
source once, consume the payload once and after the commit, and never be prepared or cancelled after
the move.  The checks of a descriptor do not constrain all transitions that leave the committed state,
or lead to it.

## Main definitions

* `Outcome.Run` — the runs of a descriptor.
* `Outcome.OutcomeDescriptor.Linear` — the runs that move and consume as they should.
* `Outcome.OutcomeDescriptor.Settled` — the descriptors of which no committed run can go back.

## Main results

* `Outcome.OutcomeDescriptor.linear_iff` — the descriptors whose runs are all linear.
-/

set_option autoImplicit false

namespace Chtholly

namespace Outcome

/-- The runs along some transitions, from one state to another. -/
inductive Run (transitions : List OutcomeTransition) :
    OutcomeState → List OutcomeTransition → OutcomeState → Prop
  | nil (state : OutcomeState) : Run transitions state [] state
  | cons {transition : OutcomeTransition} {path : List OutcomeTransition} {last : OutcomeState}
      (mem : transition ∈ transitions) (rest : Run transitions transition.target path last) :
      Run transitions transition.source (transition :: path) last

/-- One state follows another. -/
def Leads (transitions : List OutcomeTransition) (a b : OutcomeState) : Prop :=
  ∃ transition ∈ transitions, transition.source = a ∧ transition.target = b

lemma mem_reachable_iff {transitions : List OutcomeTransition} {a b : OutcomeState} :
    b ∈ reachable transitions a ↔ Relation.ReflTransGen (Leads transitions) a b := by
  have hleads : (fun a b => b ∈ (transitions.filter fun t => decide (t.source = a)).map
      OutcomeTransition.target) = Leads transitions := by
    funext a b
    simp [Leads, and_assoc]
  rw [reachable, Worklist.mem_explore_iff (by decide), hleads]

namespace Run

variable {transitions : List OutcomeTransition} {a b c : OutcomeState}
  {path path' : List OutcomeTransition}

variable {t : OutcomeTransition}

/-- A step from the state that the run has reached. -/
lemma step (hmem : t ∈ transitions) (hsource : t.source = a)
    (hrest : Run transitions t.target path b) : Run transitions a (t :: path) b :=
  hsource ▸ .cons hmem hrest

lemma eq_of_nil (h : Run transitions a [] b) : a = b := by
  cases h
  rfl

/-- No run leaves a terminal state. -/
lemma eq_of_terminal (h : Run transitions a path b) (hterminal : ∀ t ∈ transitions, t.source ≠ a) :
    b = a := by
  cases h with
  | nil => rfl
  | cons hmem _ => exact absurd rfl (hterminal _ hmem)

lemma append (h : Run transitions a path b) (h' : Run transitions b path' c) :
    Run transitions a (path ++ path') c := by
  induction h with
  | nil => exact h'
  | cons hmem _ ih => exact .cons hmem (ih h')

lemma mem (h : Run transitions a path b) : ∀ t ∈ path, t ∈ transitions := by
  induction h with
  | nil => exact fun t ht => absurd ht List.not_mem_nil
  | cons hmem _ ih =>
    intro t ht
    obtain rfl | ht := List.mem_cons.1 ht
    · exact hmem
    · exact ih t ht

/-- The two parts of a run. -/
lemma split (h : Run transitions a (path ++ path') c) :
    ∃ b, Run transitions a path b ∧ Run transitions b path' c := by
  induction path generalizing a with
  | nil => exact ⟨a, .nil a, h⟩
  | cons t path ih =>
    cases h with
    | cons hmem hrest =>
      obtain ⟨b, hpath, hpath'⟩ := ih hrest
      exact ⟨b, .cons hmem hpath, hpath'⟩

/-- The step after a part of a run. -/
lemma split_cons (h : Run transitions a (path ++ t :: path') c) :
    Run transitions a path t.source ∧ t ∈ transitions ∧ Run transitions t.target path' c := by
  obtain ⟨b, hpath, hrest⟩ := h.split
  cases hrest with
  | cons hmem hrest => exact ⟨hpath, hmem, hrest⟩

/-- After a transition, a later one starts where the states between lead. -/
lemma between {before after : List OutcomeTransition} {later : OutcomeTransition}
    (h : Run transitions a (before ++ t :: (path ++ later :: after)) c) :
    t ∈ transitions ∧ later ∈ transitions ∧ Run transitions a before t.source ∧
      Run transitions t.target path later.source := by
  obtain ⟨hbefore, ht, hrest⟩ := h.split_cons
  obtain ⟨hbetween, hlater, -⟩ := hrest.split_cons
  exact ⟨ht, hlater, hbefore, hbetween⟩

lemma reflTransGen (h : Run transitions a path b) :
    Relation.ReflTransGen (Leads transitions) a b := by
  induction h with
  | nil => exact .refl
  | cons hmem _ ih => exact ih.head ⟨_, hmem, rfl, rfl⟩

lemma exists_of_reflTransGen (h : Relation.ReflTransGen (Leads transitions) a b) :
    ∃ path, Run transitions a path b := by
  induction h with
  | refl => exact ⟨[], .nil a⟩
  | tail _ hleads ih =>
    obtain ⟨path, hpath⟩ := ih
    obtain ⟨t, hmem, rfl, rfl⟩ := hleads
    exact ⟨path ++ [t], hpath.append (.cons hmem (.nil _))⟩

/-- A run along some of the transitions. -/
lemma filter {p : OutcomeTransition → Bool} (h : Run transitions a path b)
    (hall : ∀ t ∈ path, p t = true) : Run (transitions.filter p) a path b := by
  induction h with
  | nil => exact .nil _
  | cons hmem _ ih =>
    exact .cons (List.mem_filter.2 ⟨hmem, hall _ List.mem_cons_self⟩)
      (ih fun t ht => hall t (.tail _ ht))

lemma of_filter {p : OutcomeTransition → Bool} (h : Run (transitions.filter p) a path b) :
    Run transitions a path b := by
  induction h with
  | nil => exact .nil _
  | cons hmem _ ih => exact .cons (List.mem_filter.1 hmem).1 ih

end Run

/-! ## Linear runs -/

namespace OutcomeDescriptor

variable {descriptor : OutcomeDescriptor}

/-- What a transition of a descriptor does with the source. -/
def effectOf (descriptor : OutcomeDescriptor) (transition : OutcomeTransition) :
    Option OutcomeEffect :=
  (descriptor.transitionEffect transition).map OutcomeTransitionEffect.source

/-- The runs that move and consume as they should. -/
structure Linear (descriptor : OutcomeDescriptor) (path : List OutcomeTransition) : Prop where
  moves_once : (path.countP fun t => decide (descriptor.effectOf t = some .moveSource)) ≤ 1
  consumes_once : (path.countP fun t => decide (descriptor.effectOf t = some .consumePayload)) ≤ 1
  commits_first : descriptor.cardinality = .multiSubmit → ∀ before transition after,
    path = before ++ transition :: after →
    descriptor.effectOf transition = some .consumePayload →
    ∃ earlier ∈ before, earlier.phase = .commit
  stays_moved : ∀ before transition between later after,
    path = before ++ transition :: (between ++ later :: after) →
    descriptor.effectOf transition = some .moveSource →
    later.target ≠ .prepared ∧ later.target ≠ .cancelled

/-- The transitions that are no commit. -/
def otherTransitions (descriptor : OutcomeDescriptor) : List OutcomeTransition :=
  descriptor.transitions.filter fun t => decide (t.phase ≠ .commit)

/-- The descriptors of which no committed run goes back, and which are committed by commits only. -/
structure Settled (descriptor : OutcomeDescriptor) : Prop where
  stays_committed : (∃ t ∈ descriptor.transitions, t.phase = .commit) →
    .prepared ∈ reachable descriptor.transitions .pending →
    .prepared ∉ reachable descriptor.transitions .committed ∧
      .cancelled ∉ reachable descriptor.transitions .committed
  commits : descriptor.cardinality = .multiSubmit →
    .committed ∉ reachable descriptor.otherTransitions .pending

/-- What the checks of a descriptor say about its transitions. -/
structure Checked (descriptor : OutcomeDescriptor) : Prop where
  verified : descriptor.verify = .ok ()
  not_terminal : ∀ t ∈ descriptor.transitions, t.source ≠ .consumed
  commit_edge : ∀ t ∈ descriptor.transitions, t.phase = .commit →
    t.source = .prepared ∧ t.target = .committed
  consume_edge : ∀ t ∈ descriptor.transitions, t.phase = .consume →
    t.source = successState descriptor.cardinality ∧ t.target = .consumed
  consumes : descriptor.cardinality = .multiSubmit →
    ∃ t ∈ descriptor.transitions, t.phase = .consume

variable {t : OutcomeTransition}

lemma checkTransition_eq_ok {cardinality : OutcomeCardinality}
    (h : checkTransition cardinality t = .ok ()) :
    t.source ≠ .consumed ∧ (t.phase = .commit → t.source = .prepared ∧ t.target = .committed) ∧
      (t.phase = .consume → t.source = successState cardinality ∧ t.target = .consumed) := by
  unfold checkTransition at h
  split at h
  · cases h
  split at h
  · cases h
  split at h
  · cases h
  split at h
  · cases h
  case isFalse hterminal =>
    split at h
    · cases h
    case isFalse hedges =>
      simp only [not_or, Bool.not_eq_false, expectedEdge, Bool.or_eq_true, Bool.and_eq_true,
        decide_eq_true_eq] at hedges hterminal
      obtain ⟨-, hcommit, hconsume⟩ := hedges
      exact ⟨hterminal.1, fun hphase => hcommit.resolve_left (not_not.2 hphase),
        fun hphase => hconsume.resolve_left (not_not.2 hphase)⟩

lemma checkTransitions_eq_ok {cardinality : OutcomeCardinality} {all : List OutcomeTransition}
    (h : checkTransitions cardinality all = .ok ()) :
    ∀ t ∈ all, checkTransition cardinality t = .ok () := by
  induction all with
  | nil => exact fun t ht => absurd ht List.not_mem_nil
  | cons first all ih =>
    rw [checkTransitions] at h
    split at h
    case h_1 => cases h
    case h_2 hfirst =>
      intro t ht
      obtain rfl | ht := List.mem_cons.1 ht
      · exact hfirst
      · exact ih h t ht

lemma checkMultiSubmit_eq_ok {all : List OutcomeTransition} (h : checkMultiSubmit all = .ok ()) :
    ∃ t ∈ all, t.phase = .consume := by
  unfold checkMultiSubmit at h
  split at h
  · cases h
  split at h
  · cases h
  split at h
  · cases h
  case isFalse hnot =>
    rw [not_or, Bool.not_eq_false, Bool.not_eq_false] at hnot
    obtain ⟨t, hmem, ht⟩ := List.any_eq_true.1 hnot.2
    simp only [Bool.and_eq_true, decide_eq_true_eq] at ht
    exact ⟨t, hmem, ht.2⟩

/-- A descriptor that is accepted. -/
theorem checked_of_verify (h : descriptor.verify = .ok ()) : descriptor.Checked := by
  have hverified := h
  unfold verify at h
  iterate 6
    split at h
    · cases h
  split at h
  case h_1 => cases h
  case h_2 =>
    split at h
    · cases h
    split at h
    case h_1 => cases h
    case h_2 htransitions =>
      split at h
      · cases h
      split at h
      · cases h
      have hall := checkTransitions_eq_ok htransitions
      refine ⟨hverified, fun t ht => (checkTransition_eq_ok (hall t ht)).1,
        fun t ht => (checkTransition_eq_ok (hall t ht)).2.1,
        fun t ht => (checkTransition_eq_ok (hall t ht)).2.2, fun hmulti => ?_⟩
      rw [if_pos hmulti] at h
      exact checkMultiSubmit_eq_ok h

lemma Checked.effectOf_eq (h : descriptor.Checked) (ht : t ∈ descriptor.transitions) :
    descriptor.effectOf t = some (sourceEffect t.phase) := by
  rw [effectOf, transitionEffect, h.verified]
  dsimp only
  rw [if_pos ht]
  rfl

lemma sourceEffect_eq_moveSource_iff {phase : OutcomePhase} :
    sourceEffect phase = .moveSource ↔ phase = .commit := by
  cases phase <;> simp [sourceEffect]

lemma sourceEffect_eq_consumePayload_iff {phase : OutcomePhase} :
    sourceEffect phase = .consumePayload ↔ phase = .consume := by
  cases phase <;> simp [sourceEffect]

lemma Checked.moves_iff (h : descriptor.Checked) (ht : t ∈ descriptor.transitions) :
    descriptor.effectOf t = some .moveSource ↔ t.phase = .commit := by
  rw [h.effectOf_eq ht, Option.some.injEq, sourceEffect_eq_moveSource_iff]

lemma Checked.consumes_iff (h : descriptor.Checked) (ht : t ∈ descriptor.transitions) :
    descriptor.effectOf t = some .consumePayload ↔ t.phase = .consume := by
  rw [h.effectOf_eq ht, Option.some.injEq, sourceEffect_eq_consumePayload_iff]

/-! ## Two steps of a run -/

/-- Two members of a list that have a property stand one after the other. -/
lemma exists_two_of_countP {α : Type} {p : α → Bool} {all : List α} (h : 1 < all.countP p) :
    ∃ before a between b after, all = before ++ a :: (between ++ b :: after) ∧
      p a = true ∧ p b = true := by
  induction all with
  | nil => simp at h
  | cons first all ih =>
    by_cases hfirst : p first = true
    · rw [List.countP_cons_of_pos hfirst] at h
      have hpos : 0 < all.countP p := by omega
      obtain ⟨b, hmem, hb⟩ := List.countP_pos_iff.1 hpos
      obtain ⟨between, after, rfl⟩ := List.append_of_mem hmem
      exact ⟨[], first, between, b, after, rfl, hfirst, hb⟩
    · rw [List.countP_cons_of_neg hfirst] at h
      obtain ⟨before, a, between, b, after, rfl, ha, hb⟩ := ih h
      exact ⟨first :: before, a, between, b, after, rfl, ha, hb⟩

/-- The last step of a run leads to its end. -/
lemma exists_last_of_run {transitions : List OutcomeTransition} {a b : OutcomeState}
    {path : List OutcomeTransition} (h : Run transitions a path b) (hne : path ≠ []) :
    ∃ before later, path = before ++ [later] ∧ later.target = b := by
  obtain ⟨before, later, rfl⟩ := List.eq_nil_or_concat path |>.resolve_left hne
  refine ⟨before, later, List.concat_eq_append .. |>.symm ▸ rfl, ?_⟩
  rw [List.concat_eq_append] at h
  obtain ⟨-, -, hrest⟩ := h.split_cons
  exact hrest.eq_of_nil

/-- After the move, what can be reached from the committed state is not prepared or cancelled. -/
lemma Settled.stays_moved (h : descriptor.Checked) (hsettled : descriptor.Settled)
    {last : OutcomeState} {before between after : List OutcomeTransition}
    {later : OutcomeTransition}
    (hrun : Run descriptor.transitions .pending (before ++ t :: (between ++ later :: after)) last)
    (hmoves : t.phase = .commit) :
    later.source ≠ .prepared ∧ later.target ≠ .prepared ∧ later.target ≠ .cancelled := by
  obtain ⟨ht, hlater, hbefore, hbetween⟩ := hrun.between
  obtain ⟨hsource, htarget⟩ := h.commit_edge t ht hmoves
  rw [hsource] at hbefore
  rw [htarget] at hbetween
  obtain ⟨hprepared, hcancelled⟩ := hsettled.stays_committed ⟨t, ht, hmoves⟩
    (mem_reachable_iff.2 hbefore.reflTransGen)
  rw [mem_reachable_iff] at hprepared hcancelled
  have hreached := hbetween.reflTransGen
  have hnext := hreached.tail ⟨later, hlater, rfl, rfl⟩
  refine ⟨fun hsame => ?_, fun hsame => ?_, fun hsame => ?_⟩
  · rw [hsame] at hreached
    exact hprepared hreached
  · rw [hsame] at hnext
    exact hprepared hnext
  · rw [hsame] at hnext
    exact hcancelled hnext

/-- The runs of a settled descriptor. -/
theorem Settled.linear (h : descriptor.Checked) (hsettled : descriptor.Settled)
    {path : List OutcomeTransition} {last : OutcomeState}
    (hrun : Run descriptor.transitions .pending path last) : descriptor.Linear path := by
  have hmem := hrun.mem
  constructor
  · by_contra hmany
    obtain ⟨before, t, between, later, after, rfl, ht, hlater⟩ :=
      exists_two_of_countP (Nat.lt_of_not_le hmany)
    obtain ⟨htmem, hlatermem, -⟩ := hrun.between
    rw [decide_eq_true_eq, h.moves_iff htmem] at ht
    rw [decide_eq_true_eq, h.moves_iff hlatermem] at hlater
    exact (hsettled.stays_moved h hrun ht).1 (h.commit_edge later hlatermem hlater).1
  · -- no transition leaves the state in which the payload was consumed
    by_contra hmany
    obtain ⟨before, t, between, later, after, rfl, ht, -⟩ :=
      exists_two_of_countP (Nat.lt_of_not_le hmany)
    obtain ⟨htmem, hlatermem, -, hbetween⟩ := hrun.between
    rw [decide_eq_true_eq, h.consumes_iff htmem] at ht
    rw [(h.consume_edge t htmem ht).2] at hbetween
    exact h.not_terminal later hlatermem (hbetween.eq_of_terminal h.not_terminal)
  · intro hmulti before t after heq ht
    subst heq
    obtain ⟨hbefore, htmem, -⟩ := hrun.split_cons
    rw [h.consumes_iff htmem] at ht
    by_contra hnone
    have hall : ∀ t' ∈ before, decide (t'.phase ≠ .commit) = true := by
      intro t' ht'
      rw [decide_eq_true_eq]
      exact fun hcommit => hnone ⟨t', ht', hcommit⟩
    have hother := (hbefore.filter hall).reflTransGen
    rw [(h.consume_edge t htmem ht).1, successState, if_pos hmulti] at hother
    exact hsettled.commits hmulti (mem_reachable_iff.2 hother)
  · intro before t between later after heq ht
    subst heq
    obtain ⟨htmem, -⟩ := hrun.between
    rw [h.moves_iff htmem] at ht
    exact (hsettled.stays_moved h hrun ht).2

/-- A descriptor all of whose runs are linear is settled. -/
theorem Checked.settled (h : descriptor.Checked)
    (hlinear : ∀ path last, Run descriptor.transitions .pending path last →
      descriptor.Linear path) : descriptor.Settled := by
  constructor
  · rintro ⟨t, ht, hcommit⟩ hprepared
    obtain ⟨hsource, htarget⟩ := h.commit_edge t ht hcommit
    rw [mem_reachable_iff] at hprepared
    obtain ⟨before, hbefore⟩ := Run.exists_of_reflTransGen hprepared
    rw [← hsource] at hbefore
    -- a way back from the committed state would be taken after the move
    have hback : ∀ state, state ≠ .committed → state ∈ reachable descriptor.transitions .committed →
        state ≠ .prepared ∧ state ≠ .cancelled := by
      intro state hne hreachable
      rw [mem_reachable_iff, ← htarget] at hreachable
      obtain ⟨path, hpath⟩ := Run.exists_of_reflTransGen hreachable
      have hpathne : path ≠ [] := by
        rintro rfl
        exact hne (hpath.eq_of_nil.symm.trans htarget)
      obtain ⟨between, later, rfl, hlater⟩ := exists_last_of_run hpath hpathne
      have hrun := hbefore.append (.cons ht hpath)
      have := (hlinear _ _ hrun).stays_moved before t between later [] rfl
        ((h.moves_iff ht).2 hcommit)
      rwa [hlater] at this
    exact ⟨fun hmem => (hback _ (by decide) hmem).1 rfl,
      fun hmem => (hback _ (by decide) hmem).2 rfl⟩
  · intro hmulti hreachable
    rw [mem_reachable_iff] at hreachable
    obtain ⟨before, hbefore⟩ := Run.exists_of_reflTransGen hreachable
    obtain ⟨t, ht, hconsume⟩ := h.consumes hmulti
    have hsource := (h.consume_edge t ht hconsume).1
    rw [successState, if_pos hmulti] at hsource
    have hrun : Run descriptor.transitions .pending (before ++ t :: []) t.target := by
      have hfirst : Run descriptor.transitions .pending before t.source :=
        hsource ▸ hbefore.of_filter
      exact hfirst.append (.cons ht (.nil _))
    obtain ⟨earlier, hearlier, hcommit⟩ := (hlinear _ _ hrun).commits_first hmulti before t [] rfl
      ((h.consumes_iff ht).2 hconsume)
    have hother := (List.mem_filter.1 (hbefore.mem earlier hearlier)).2
    rw [decide_eq_true_eq] at hother
    exact hother hcommit

/-- The descriptors whose runs are all linear. -/
theorem linear_iff (h : descriptor.verify = .ok ()) :
    (∀ path last, Run descriptor.transitions .pending path last → descriptor.Linear path) ↔
      descriptor.Settled :=
  ⟨(checked_of_verify h).settled,
    fun hsettled _ _ hrun => hsettled.linear (checked_of_verify h) hrun⟩

/-- The outcome of a channel operation is accepted, so the equivalence holds of it. -/
theorem linear_iff_channel :
    (∀ path last, Run makeChannelOutcome.transitions .pending path last →
      makeChannelOutcome.Linear path) ↔ makeChannelOutcome.Settled :=
  linear_iff (by decide)

/-- The outcome of a channel operation with a transition back from the commit. -/
def recommitting : OutcomeDescriptor :=
  { makeChannelOutcome with
    transitions := makeChannelOutcome.transitions ++
      [{ source := .committed, target := .prepared, phase := .publish }] }

/-- A descriptor that is accepted, with a run that moves its source twice. -/
theorem recommitting_moves_twice :
    recommitting.verify = .ok () ∧
      ¬∀ path last, Run recommitting.transitions .pending path last → recommitting.Linear path := by
  refine ⟨by decide, fun hlinear => ?_⟩
  have hrun : Run recommitting.transitions .pending
      [⟨.pending, .prepared, .prepare, true, 0⟩, ⟨.prepared, .committed, .commit, true, 0⟩,
        { source := .committed, target := .prepared, phase := .publish },
        ⟨.prepared, .committed, .commit, true, 0⟩] .committed :=
    .step (by decide) rfl (.step (by decide) rfl (.step (by decide) rfl
      (.step (by decide) rfl (.nil _))))
  have hmoves := (hlinear _ _ hrun).moves_once
  revert hmoves
  decide

end OutcomeDescriptor

end Outcome

end Chtholly
