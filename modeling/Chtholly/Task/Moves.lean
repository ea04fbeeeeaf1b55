import Chtholly.Task.Scheduler

/-!
# The moves of the scheduler

What an action can do, one constructor for each way through a critical section, with the guards
that lead there.  The invariants are proved from these.

## Main definitions

* `Task.Move` — the ways through the critical sections.

## Main results

* `Task.move_of_step` — an action is one of them.
-/

set_option autoImplicit false

namespace Chtholly

namespace Task

/-- `Move w w'`: some thread goes through a critical section that takes `w` to `w'`. -/
inductive Move (w : World) : World → Prop where
  | wake {t : ℕ} (hlt : t < w.created) (hlocked : (w.tasks t).locked = false) : Move w (w.wake t)
  | shutdown {e : ℕ} : Move w (w.setExecutor e { w.executors e with shutdown := true })
  | beginCreate {j s e : ℕ} {parent : Option ℕ} (hj : w.threads j = .idle)
      (hholder : (w.scopes s).holder = none) (hparent : w.parentRunning s parent = true) :
      Move w ((w.setScope s { w.scopes s with holder := some j }).setPc j (.creating s e parent))
  | refuseCreate {j s e : ℕ} {parent : Option ℕ} (hj : w.threads j = .creating s e parent) :
      Move w ((w.setScope s { w.scopes s with holder := none }).setPc j .idle)
  | create {j s e : ℕ} {parent : Option ℕ} (hj : w.threads j = .creating s e parent) :
      Move w (((w.setScope s { w.scopes s with holder := none }).insertTask s e parent).setPc j
        .idle)
  | beginRebind {j t e : ℕ} (hj : w.threads j = .idle) (hlt : t < w.created) :
      Move w (w.setPc j (.rebinding t e (w.tasks t).scope false))
  | retainExecutor {j t e s : ℕ} (hj : w.threads j = .rebinding t e s false) :
      Move w (w.setPc j (.rebinding t e s true))
  | refuseRebind {j t e s : ℕ} {retained : Bool} (hj : w.threads j = .rebinding t e s retained) :
      Move w (w.setPc j .idle)
  | rebind {j t e s : ℕ} (hj : w.threads j = .rebinding t e s true)
      (hlocked : (w.tasks t).locked = false) (hrunning : (w.tasks t).state = .running) :
      Move w ((w.setTask t { w.tasks t with executor := some e }).setPc j .idle)
  | beginCancel {j t : ℕ} {cause : Cause} (hj : w.threads j = .idle) (hlt : t < w.created) :
      Move w (w.setPc j (.markRoot t cause))
  | markRoot {j root : ℕ} {cause : Cause} (hj : w.threads j = .markRoot root cause)
      (hlocked : (w.tasks root).locked = false) (hmarkable : w.markable root = true) :
      Move w ((w.mark root cause).setPc j (.wakeRoot root cause))
  | refuseRoot {j root : ℕ} {cause : Cause} (hj : w.threads j = .markRoot root cause) :
      Move w (w.setPc j .idle)
  | wakeRoot {j root : ℕ} {cause : Cause} (hj : w.threads j = .wakeRoot root cause)
      (hlocked : (w.tasks root).locked = false) :
      Move w ((w.wake root).setPc j (.readScope root cause false))
  | readScope {j root : ℕ} {cause : Cause} {publisher : Bool}
      (hj : w.threads j = .readScope root cause publisher)
      (hpublished : (w.tasks root).publishedTerminal = false) :
      Move w (w.setPc j (.lockScope ⟨.tree root, cause, publisher⟩ (w.tasks root).scope))
  | leaveDetached {j root : ℕ} {cause : Cause} (hj : w.threads j = .readScope root cause false)
      (hgone : (w.tasks root).publishedTerminal = true ∨ (w.tasks root).attached = false) :
      Move w { w.setPc j .idle with returned := root :: w.returned }
  | publishDetached {j root : ℕ} {cause : Cause} (hj : w.threads j = .readScope root cause true)
      (hgone : (w.tasks root).publishedTerminal = true ∨ (w.tasks root).attached = false) :
      Move w (w.setPc j (.publishing root .cancelled))
  | beginScopeCancel {j s : ℕ} (hj : w.threads j = .idle) :
      Move w (w.setPc j (.lockScope ⟨.all, .ownerRequest, false⟩ s))
  | lockScope {j s : ℕ} {call : Cancellation} {cancelled : Bool}
      (hj : w.threads j = .lockScope call s) (hholder : (w.scopes s).holder = none) :
      Move w ((w.setScope s { w.scopes s with
        holder := some j, cancellationRequested := cancelled }).setPc j
          (.visit call s (w.scopes s).tasks))
  | visitMark {j s t : ℕ} {call : Cancellation} {rest : List ℕ}
      (hj : w.threads j = .visit call s (t :: rest)) (hlocked : (w.tasks t).locked = false)
      (hmarkable : w.markable t = true) :
      Move w ((w.mark t call.cause).setPc j (.wakeVisited call s t rest))
  | visitSkip {j s t : ℕ} {call : Cancellation} {rest : List ℕ}
      (hj : w.threads j = .visit call s (t :: rest))
      (hskip : w.visits call t = true → w.markable t = false) :
      Move w (w.setPc j (.visit call s rest))
  | wakeVisited {j s t : ℕ} {call : Cancellation} {rest : List ℕ}
      (hj : w.threads j = .wakeVisited call s t rest) (hlocked : (w.tasks t).locked = false) :
      Move w ((w.wake t).setPc j (.visit call s rest))
  | finishVisit {j s : ℕ} {call : Cancellation} (hj : w.threads j = .visit call s []) :
      Move w (w.finishVisit j call s)
  | dequeue {j e t : ℕ} {rest : List ℕ} (hj : w.threads j = .idle)
      (hqueue : (w.executors e).queue = t :: rest) :
      Move w (((w.setExecutor e { w.executors e with queue := rest }).setTask t
        { w.tasks t with state := .running, woken := false, marked := false }).setPc j
          (.resuming t))
  | cancelled {j t : ℕ} {cause : Cause} (hj : w.threads j = .resuming t)
      (hlocked : (w.tasks t).locked = false) :
      Move w ((w.setTask t { w.tasks t with state := .cancelled, rerunRequested := false }).setPc j
        (.readScope t cause true))
  | finished {j t : ℕ} {step : Step} {state : State} (hj : w.threads j = .resuming t)
      (hlocked : (w.tasks t).locked = false) (hstep : step.state? = some state)
      (hne : step ≠ .cancelled) (hrequested : (w.tasks t).cancellationRequested = false) :
      Move w ((w.setTask t { w.tasks t with state, rerunRequested := false }).setPc j
        (.publishing t step))
  | hold {j t e : ℕ} {step : Step} (hj : w.threads j = .resuming t)
      (hlocked : (w.tasks t).locked = false) (hexecutor : (w.tasks t).executor = some e) :
      Move w ((w.setTask t { w.tasks t with locked := true }).setPc j (.requeue t step e))
  | requeue {j t e : ℕ} {step : Step} (hj : w.threads j = .requeue t step e) :
      Move w (((w.setTask t { w.tasks t with rerunRequested := false, locked := false }).enqueue e
        t).setPc j .idle)
  | suspend {j t e : ℕ} {step : Step} (hj : w.threads j = .requeue t step e)
      (hrerun : (w.tasks t).rerunRequested = false)
      (hrequested : (w.tasks t).cancellationRequested = false) :
      Move w ((w.setTask t { w.tasks t with state := .idle, locked := false }).setPc j .idle)
  | publish {j t : ℕ} {step : Step} (hj : w.threads j = .publishing t step)
      (hlocked : (w.tasks t).locked = false) : Move w (w.publish j t step)
  | remove {j t : ℕ} (hj : w.threads j = .removing t)
      (hholder : (w.scopes (w.tasks t).scope).holder = none)
      (hlocked : (w.tasks t).locked = false) : Move w (w.removeFromScope j t)

variable {w w' : World} {j : ℕ}

lemma move_of_classify {t code : ℕ} (hj : w.threads j = .resuming t)
    (hlocked : (w.tasks t).locked = false) (h : w.classify j t code = some w') : Move w w' := by
  unfold World.classify at h
  dsimp only at h
  split at h
  next state hstate =>
    split_ifs at h with hif hcancelled hcancelled
    · rw [Option.some.injEq] at h
      subst h
      rw [if_pos hif, Step.state?, Option.some.injEq] at hstate
      subst hstate
      exact .cancelled hj hlocked
    · exact absurd rfl hcancelled
    · rw [Option.some.injEq] at h
      subst h
      rw [if_neg hif, hcancelled, Step.state?, Option.some.injEq] at hstate
      subst hstate
      exact .cancelled hj hlocked
    · rw [Option.some.injEq] at h
      subst h
      rw [if_neg hif] at hstate
      refine .finished hj hlocked hstate hcancelled ?_
      by_contra hrequested
      rw [Bool.not_eq_false] at hrequested
      refine hif ⟨?_, hrequested⟩
      cases hcode : Step.ofCode code <;> rw [hcode] at hstate hcancelled
      · exact nomatch hstate
      · exact nomatch hstate
      · exact absurd rfl hcancelled
      · exact .inl rfl
      · exact .inr rfl
  next e hstate hexecutor =>
    rw [Option.some.injEq] at h
    subst h
    exact .hold hj hlocked hexecutor
  next => exact nomatch h

lemma move_of_advance (h : w.advance j = some w') : Move w w' := by
  unfold World.advance at h
  split at h
  next => exact nomatch h
  next => exact nomatch h
  next s e parent hj =>
    dsimp only at h
    split_ifs at h
    · exact Option.some.inj h ▸ .refuseCreate hj
    · exact Option.some.inj h ▸ .create hj
  next t e s hj =>
    split_ifs at h
    · exact Option.some.inj h ▸ .refuseRebind hj
    · exact Option.some.inj h ▸ .retainExecutor hj
  next t e s hj =>
    split_ifs at h with hlocked hrunning
    · exact Option.some.inj h ▸ .rebind hj (by simpa using hlocked) hrunning.1
    · exact Option.some.inj h ▸ .refuseRebind hj
  next root cause hj =>
    split_ifs at h with hlocked hmarkable
    · exact Option.some.inj h ▸ .markRoot hj (by simpa using hlocked) hmarkable
    · exact Option.some.inj h ▸ .refuseRoot hj
  next root cause hj =>
    split_ifs at h with hlocked
    exact Option.some.inj h ▸ .wakeRoot hj (by simpa using hlocked)
  next root cause publisher hj =>
    split_ifs at h with hlocked hattached hpublisher
    · rw [Bool.and_eq_true, Bool.not_eq_true'] at hattached
      exact Option.some.inj h ▸ .readScope hj hattached.1
    · subst hpublisher
      exact Option.some.inj h ▸ .publishDetached hj (by grind)
    · rw [Bool.not_eq_true] at hpublisher
      subst hpublisher
      exact Option.some.inj h ▸ .leaveDetached hj (by grind)
  next call s hj =>
    split_ifs at h with hholder
    rw [Option.not_isSome_iff_eq_none] at hholder
    exact Option.some.inj h ▸ .lockScope hj hholder
  next call s hj => exact Option.some.inj h ▸ .finishVisit hj
  next call s t rest hj =>
    split_ifs at h with hvisits hlocked hmarkable
    · exact Option.some.inj h ▸ .visitMark hj (by simpa using hlocked) hmarkable
    · exact Option.some.inj h ▸ .visitSkip hj fun _ => by simpa using hmarkable
    · exact Option.some.inj h ▸ .visitSkip hj fun hv => absurd hv hvisits
  next call s t rest hj =>
    split_ifs at h with hlocked
    exact Option.some.inj h ▸ .wakeVisited hj (by simpa using hlocked)
  next t step e hj =>
    rw [Option.some.injEq] at h
    subst h
    rw [World.requeue]
    split_ifs with hagain
    · exact .requeue hj
    · rw [not_or, not_or, Bool.not_eq_true, Bool.not_eq_true] at hagain
      exact .suspend hj hagain.2.1 hagain.2.2
  next t step hj =>
    split_ifs at h with hlocked
    exact Option.some.inj h ▸ .publish hj (by simpa using hlocked)
  next t hj =>
    split_ifs at h with hbusy
    rw [Bool.or_eq_true, not_or, Option.not_isSome_iff_eq_none] at hbusy
    exact Option.some.inj h ▸ .remove hj hbusy.1 (by simpa using hbusy.2)

/-- **What an action can do.** -/
theorem move_of_step {action : Action} (h : step w action = some w') : Move w w' := by
  cases action with
  | wake t =>
    rw [step] at h
    split_ifs at h with hif
    exact Option.some.inj h ▸ .wake hif.1 hif.2
  | beginCreate j s e parent =>
    rw [step] at h
    split_ifs at h with hif
    exact Option.some.inj h ▸ .beginCreate hif.1 hif.2.1 hif.2.2
  | beginRebind j t e =>
    rw [step] at h
    split_ifs at h with hif
    exact Option.some.inj h ▸ .beginRebind hif.1 hif.2.1
  | beginCancel j t cause =>
    rw [step] at h
    split_ifs at h with hif
    exact Option.some.inj h ▸ .beginCancel hif.1 hif.2
  | beginScopeCancel j s =>
    rw [step] at h
    split_ifs at h with hif
    exact Option.some.inj h ▸ .beginScopeCancel hif
  | shutdown e => exact Option.some.inj h ▸ .shutdown
  | dequeue j e =>
    rw [step] at h
    split at h
    next t rest hj hqueue => exact Option.some.inj h ▸ .dequeue hj hqueue
    next => exact nomatch h
  | resumeReturns j code =>
    rw [step] at h
    split at h
    next t hj =>
      split_ifs at h with hlocked
      exact move_of_classify hj (by simpa using hlocked) h
    next => exact nomatch h
  | advance j => exact move_of_advance h

end Task

end Chtholly
