import Chtholly.Task.Scheduling

/-!
# Cancellation

A cancellation marks a task, and then, with the mutex of its scope held, every task below it.  A
task that is created inherits the mark of its parent.  So after the cancellation has returned,
every task below that is not terminal is marked, also those created later, and a marked task ends
cancelled.

The invariant follows the tasks below which a cancellation has visited every task.  Such a task
stays closed: a new task below it has a parent that is still running, hence marked.  A task that
is published as cancelled was closed by its worker before.

## Main definitions

* `Task.Descends` — one task is below another.
* `Task.World.Canc` — the invariant of cancellation.

## Main results

* `Task.reachable_cancelled` — what cancellation promises in every run.
-/

set_option autoImplicit false

namespace Chtholly

namespace Task

variable {w w' : World} {t j : ℕ}

/-! ## The tree of tasks -/

/-- The cancellation node of `d` descends from the one of `r`. -/
def Descends (w : World) : ℕ → ℕ → Prop :=
  Relation.TransGen fun d p => (w.tasks d).parent = some p

lemma descends_congr (h : ∀ t, (w'.tasks t).parent = (w.tasks t).parent) :
    Descends w' = Descends w := by
  unfold Descends
  simp only [h]

lemma descends_iff {d r : ℕ} : Descends w d r ↔
    ∃ p, (w.tasks d).parent = some p ∧ (p = r ∨ Descends w p r) := by
  constructor
  · intro h
    rcases Relation.TransGen.head'_iff.1 h with ⟨p, hp, hrest⟩
    refine ⟨p, hp, ?_⟩
    rcases Relation.reflTransGen_iff_eq_or_transGen.1 hrest with heq | hrest
    · exact .inl heq.symm
    · exact .inr hrest
  · rintro ⟨p, hp, rfl | hrest⟩
    · exact Relation.TransGen.single hp
    · exact Relation.TransGen.head hp hrest

/-- Parents are created before their children, in the same scope. -/
def World.Rooted (w : World) : Prop :=
  ∀ t p, (w.tasks t).parent = some p → p < t ∧ (w.tasks p).scope = (w.tasks t).scope

lemma Descends.lt (h : w.Rooted) {d r : ℕ} (hd : Descends w d r) : r < d := by
  induction hd with
  | single hp => exact (h _ _ hp).1
  | tail _ hp ih => exact Nat.lt_trans (h _ _ hp).1 ih

lemma Descends.scope (h : w.Rooted) {d r : ℕ} (hd : Descends w d r) :
    (w.tasks r).scope = (w.tasks d).scope := by
  induction hd with
  | single hp => exact (h _ _ hp).2
  | tail _ hp ih => exact (h _ _ hp).2.trans ih

/-- The walk up the parents finds the ancestors. -/
lemma descendsFrom_iff (h : w.Rooted) (r : ℕ) :
    ∀ fuel d, d ≤ fuel → (descendsFrom w.tasks r fuel d = true ↔ Descends w d r)
  | 0, d, hd => by
    have hzero : d = 0 := Nat.le_zero.1 hd
    subst hzero
    rw [descendsFrom, descends_iff]
    constructor
    · exact nofun
    · rintro ⟨p, hp, -⟩
      exact absurd (h 0 p hp).1 (Nat.not_lt_zero p)
  | fuel + 1, d, hd => by
    rw [descendsFrom, descends_iff]
    cases hp : (w.tasks d).parent with
    | none => simp
    | some p =>
      have hlt := (h d p hp).1
      have ih := descendsFrom_iff h r fuel p (by omega)
      simp only [Bool.or_eq_true, beq_iff_eq, ih, Option.some.injEq, exists_eq_left']

/-! ## The invariant -/

/-- The task is marked or over. -/
def World.Settled (w : World) (t : ℕ) : Prop :=
  (w.tasks t).cancellationRequested = true ∨ (w.tasks t).state.terminal = true

/-- The root of a cancellation: its worker publishes it, or it is marked. -/
def World.RootOk (w : World) (r : ℕ) (publisher : Bool) : Prop :=
  r < w.created ∧
    if publisher then (w.tasks r).state = .cancelled ∧ (w.tasks r).publishedTerminal = false ∧
      (w.tasks r).attached = true
    else (w.tasks r).cancellationRequested = true

/-- What a visit of the tasks below `r` has done so far. -/
def World.Visiting (w : World) (r s : ℕ) (publisher : Bool) (rest : List ℕ) : Prop :=
  w.RootOk r publisher ∧ (w.tasks r).scope = s ∧ ∀ d, Descends w d r → w.Settled d ∨ d ∈ rest

/-- What holds of the thread `j` at the critical section `pc`. -/
def World.ThreadOk (w : World) (j : ℕ) : Pc → Prop
  | .creating s _ parent => (w.scopes s).holder = some j ∧ ∀ p, parent = some p →
      p < w.created ∧ (w.tasks p).scope = s ∧
        ∀ r ∈ w.closed, p = r ∨ Descends w p r → (w.tasks p).cancellationRequested = true
  | .wakeRoot r _ => w.RootOk r false
  | .readScope r _ publisher => w.RootOk r publisher
  | .lockScope ⟨.tree r, _, publisher⟩ s => w.RootOk r publisher ∧ (w.tasks r).scope = s
  | .visit ⟨target, _, publisher⟩ s rest => (w.scopes s).holder = some j ∧
      ∀ r, target = .tree r → w.Visiting r s publisher rest
  | .wakeVisited ⟨target, _, publisher⟩ s _ rest => (w.scopes s).holder = some j ∧
      ∀ r, target = .tree r → w.Visiting r s publisher rest
  | .publishing t step => step.state? = some (w.tasks t).state ∧
      (w.tasks t).publishedTerminal = false ∧ (w.tasks t).attached = true ∧
        (step = .cancelled → t ∈ w.closed)
  | .removing t => (w.tasks t).publishedTerminal = true
  | _ => True

/-- What holds of one task.  A task that is published as cancelled is closed. -/
structure World.TaskOk (w : World) (t : ℕ) : Prop where
  caused : (w.tasks t).cancellationRequested = true → (w.tasks t).cancellationCause ≠ none
  outcome : (w.tasks t).state = .completed ∨ (w.tasks t).state = .failed →
    (w.tasks t).cancellationRequested = false
  published : (w.tasks t).publishedTerminal = true → ∃ step,
    (w.tasks t).terminalStep = some step ∧ step.state? = some (w.tasks t).state ∧
      ((w.tasks t).state = .cancelled → t ∈ w.closed)
  attached : t < w.created → (w.tasks t).attached = false → (w.tasks t).publishedTerminal = true
  listed : t < w.created → (w.tasks t).attached = true →
    t ∈ (w.scopes (w.tasks t).scope).tasks

structure World.Canc (w : World) : Prop where
  rooted : w.Rooted
  tasks : ∀ t, w.TaskOk t
  closed : ∀ r ∈ w.closed, w.Settled r ∧ ∀ d, Descends w d r → w.Settled d
  returned : ∀ r ∈ w.returned, r ∈ w.closed
  threads : ∀ j, w.ThreadOk j (w.threads j)

/-! ## What the moves keep -/

/-- While `j` moves, tasks keep their place in the tree, their mark, and their end.  Only `j` enters
a task below another, with the mutex of the scope, and marks it if the other is closed. -/
structure Evolves (j : ℕ) (w w' : World) : Prop where
  created : w.created ≤ w'.created
  rooted : w'.Rooted
  below : ∀ d r, Descends w' d r → Descends w d r ∨ w.created ≤ d ∧
    (w.scopes (w.tasks r).scope).holder = some j ∧ (r ∈ w'.closed → w'.Settled d)
  scope : ∀ t < w.created, (w'.tasks t).scope = (w.tasks t).scope
  requested : ∀ t, (w.tasks t).cancellationRequested = true →
    (w'.tasks t).cancellationRequested = true
  terminal : ∀ t, (w.tasks t).state.terminal = true → (w'.tasks t).state = (w.tasks t).state

lemma Evolves.settled (h : Evolves j w w') (hs : w.Settled t) : w'.Settled t := by
  rcases hs with hrequested | hterminal
  · exact .inl (h.requested t hrequested)
  · refine .inr ?_
    rw [h.terminal t hterminal]
    exact hterminal

lemma Evolves.of_tree (hrooted : w.Rooted) (hcreated : w'.created = w.created)
    (hparent : ∀ t, (w'.tasks t).parent = (w.tasks t).parent)
    (hscope : ∀ t, (w'.tasks t).scope = (w.tasks t).scope)
    (hrequested : ∀ t, (w.tasks t).cancellationRequested = true →
      (w'.tasks t).cancellationRequested = true)
    (hterminal : ∀ t, (w.tasks t).state.terminal = true →
      (w'.tasks t).state = (w.tasks t).state) : Evolves j w w' where
  created := Nat.le_of_eq hcreated.symm
  rooted := by
    intro t p hp
    rw [hparent] at hp
    rw [hscope, hscope]
    exact hrooted t p hp
  below := fun d r hd => .inl (by rwa [descends_congr hparent] at hd)
  scope := fun t _ => hscope t
  requested := hrequested
  terminal := hterminal

/-- The root of a cancellation stays one, if the worker that publishes it does not go on. -/
lemma Evolves.rootOk (h : Evolves j w w') {r : ℕ} {publisher : Bool} (hr : w.RootOk r publisher)
    (howned : publisher = true → (w'.tasks r).publishedTerminal = (w.tasks r).publishedTerminal ∧
      (w'.tasks r).attached = (w.tasks r).attached) : w'.RootOk r publisher := by
  obtain ⟨hlt, hr⟩ := hr
  refine ⟨Nat.lt_of_lt_of_le hlt h.created, ?_⟩
  cases publisher with
  | false => exact h.requested r hr
  | true =>
    obtain ⟨hstate, hpublished, hattached⟩ := hr
    obtain ⟨hp, ha⟩ := howned rfl
    refine ⟨?_, hp.trans hpublished, ha.trans hattached⟩
    rw [h.terminal r (by rw [hstate]; rfl)]
    exact hstate

lemma Evolves.visiting (h : Evolves j w w') {r s : ℕ} {publisher : Bool} {rest : List ℕ}
    (hr : w.Visiting r s publisher rest) (hholder : (w.scopes s).holder ≠ some j)
    (howned : publisher = true → (w'.tasks r).publishedTerminal = (w.tasks r).publishedTerminal ∧
      (w'.tasks r).attached = (w.tasks r).attached) : w'.Visiting r s publisher rest := by
  obtain ⟨hroot, hscope, hbelow⟩ := hr
  refine ⟨h.rootOk hroot howned, (h.scope r hroot.1).trans hscope, fun d hd => ?_⟩
  rcases h.below d r hd with hd | ⟨-, hj, -⟩
  · exact (hbelow d hd).imp h.settled id
  · rw [hscope] at hj
    exact absurd hj hholder

/-- `j` has visited every task below `r`, and still holds the mutex of the scope. -/
def World.Closing (w : World) (j r : ℕ) : Prop :=
  w.Settled r ∧ (∀ d, Descends w d r → w.Settled d) ∧
    (w.scopes (w.tasks r).scope).holder = some j

/-- A thread that does not move: its task is not published by another, and its scope stays
locked. -/
lemma Evolves.threadOk (h : Evolves j w w') {i : ℕ} (hij : i ≠ j) (hrooted : w.Rooted) {pc : Pc}
    (hpc : w.ThreadOk i pc) (hclosed : ∀ r ∈ w.closed, r ∈ w'.closed)
    (hnew : ∀ r ∈ w'.closed, r ∈ w.closed ∨ w.Closing j r)
    (hholder : ∀ s, (w.scopes s).holder = some i → (w'.scopes s).holder = some i)
    (howned : ∀ t, pc.owned = some t →
      (w'.tasks t).publishedTerminal = (w.tasks t).publishedTerminal ∧
        (w'.tasks t).attached = (w.tasks t).attached)
    (hterminal : ∀ t step, pc = .publishing t step → (w.tasks t).state.terminal = true) :
    w'.ThreadOk i pc := by
  have hother : ∀ s, (w.scopes s).holder = some i → (w.scopes s).holder ≠ some j := by
    intro s hs hj
    exact hij (Option.some.inj (hs.symm.trans hj))
  cases pc with
  | idle => trivial
  | creating s e parent =>
    obtain ⟨hs, hparent⟩ := hpc
    refine ⟨hholder s hs, fun p hp => ?_⟩
    obtain ⟨hlt, hscope, hbelow⟩ := hparent p hp
    refine ⟨Nat.lt_of_lt_of_le hlt h.created, (h.scope p hlt).trans hscope, fun r hr hd => ?_⟩
    have hd' : p = r ∨ Descends w p r := by
      refine hd.imp id fun hd => ?_
      rcases h.below p r hd with hd | ⟨hge, -⟩
      · exact hd
      · exact absurd hlt (Nat.not_lt.2 hge)
    rcases hnew r hr with hr | ⟨-, -, hj⟩
    · exact h.requested p (hbelow r hr hd')
    -- A task below one that `j` closes is in the scope that `j` holds.
    · have hsame : (w.tasks r).scope = s := by
        rcases hd' with rfl | hd'
        · exact hscope
        · exact (Descends.scope hrooted hd').trans hscope
      rw [hsame] at hj
      exact absurd hj (hother s hs)
  | rebinding t e s retained => trivial
  | markRoot root cause => trivial
  | wakeRoot root cause => exact h.rootOk hpc nofun
  | readScope root cause publisher =>
    refine h.rootOk hpc ?_
    rintro rfl
    exact howned root rfl
  | lockScope call s =>
    obtain ⟨target, cause, publisher⟩ := call
    cases target with
    | all => trivial
    | tree root =>
      refine ⟨h.rootOk hpc.1 ?_, (h.scope root hpc.1.1).trans hpc.2⟩
      rintro rfl
      exact howned root rfl
  | visit call s rest =>
    obtain ⟨target, cause, publisher⟩ := call
    refine ⟨hholder s hpc.1, ?_⟩
    rintro root rfl
    refine h.visiting (hpc.2 root rfl) (hother s hpc.1) ?_
    rintro rfl
    exact howned root rfl
  | wakeVisited call s t rest =>
    obtain ⟨target, cause, publisher⟩ := call
    refine ⟨hholder s hpc.1, ?_⟩
    rintro root rfl
    refine h.visiting (hpc.2 root rfl) (hother s hpc.1) ?_
    rintro rfl
    exact howned root rfl
  | resuming t => trivial
  | requeue t step e => trivial
  | publishing t step =>
    obtain ⟨hstate, hpublished, hattached, hclosed'⟩ := hpc
    obtain ⟨hp, ha⟩ := howned t rfl
    refine ⟨?_, hp.trans hpublished, ha.trans hattached, fun hstep => hclosed t (hclosed' hstep)⟩
    rw [h.terminal t (hterminal t step rfl)]
    exact hstate
  | removing t => exact (howned t rfl).1.trans hpc

/-- A thread `j` moves. -/
lemma World.Canc.move (h : w.Canc) (hs : w.Sched) (j : ℕ) (he : Evolves j w w')
    (hclosed : ∀ r ∈ w.closed, r ∈ w'.closed)
    (hnew : ∀ r ∈ w'.closed, r ∈ w.closed ∨ w.Closing j r)
    (hreturned : ∀ r ∈ w'.returned, r ∈ w.returned ∨ r ∈ w'.closed)
    (hthreads : ∀ i, i ≠ j → w'.threads i = w.threads i)
    (hholder : ∀ i s, i ≠ j → (w.scopes s).holder = some i → (w'.scopes s).holder = some i)
    (hkeeps : ∀ t, t < w.created → (w.threads j).owned ≠ some t →
      (w'.tasks t).publishedTerminal = (w.tasks t).publishedTerminal ∧
        (w'.tasks t).attached = (w.tasks t).attached)
    (htasks : ∀ t, w'.TaskOk t) (hj : w'.ThreadOk j (w'.threads j)) : w'.Canc where
  rooted := he.rooted
  tasks := htasks
  closed := fun r hr => by
    have hbefore : w.Settled r ∧ ∀ d, Descends w d r → w.Settled d := by
      rcases hnew r hr with hr | ⟨hr, hd, -⟩
      · exact h.closed r hr
      · exact ⟨hr, hd⟩
    refine ⟨he.settled hbefore.1, fun d hd => ?_⟩
    rcases he.below d r hd with hd | ⟨-, -, hd⟩
    · exact he.settled (hbefore.2 d hd)
    · exact hd hr
  returned := fun r hr => (hreturned r hr).elim (fun hr => hclosed r (h.returned r hr)) id
  threads := fun i => by
    by_cases hij : i = j
    · subst hij
      exact hj
    · rw [hthreads i hij]
      refine he.threadOk hij h.rooted (h.threads i) hclosed hnew (fun s => hholder i s hij) ?_ ?_
      · intro t hi
        have hlt := hs.lt_created (t := t) (by have := hs.owned_state hi; grind [State.terminal])
        exact hkeeps t hlt fun hjt => hij (hs.unique i j t hi hjt)
      · intro t step hi
        exact hs.owned i t (by rw [hi]; rfl) (by rw [hi]; rfl)

/-- The task is the same to cancellation. -/
structure Record.Alike (task task' : Record) : Prop where
  scope : task'.scope = task.scope
  attached : task'.attached = task.attached
  parent : task'.parent = task.parent
  requested : task'.cancellationRequested = task.cancellationRequested
  cause : task'.cancellationCause = task.cancellationCause
  published : task'.publishedTerminal = task.publishedTerminal
  terminalStep : task'.terminalStep = task.terminalStep
  state : task'.state = task.state ∨ task.state.terminal = false ∧ task'.state.terminal = false

lemma Record.Alike.rfl {task : Record} : task.Alike task :=
  ⟨Eq.refl _, Eq.refl _, Eq.refl _, Eq.refl _, Eq.refl _, Eq.refl _, Eq.refl _, .inl (Eq.refl _)⟩

lemma Evolves.of_alike (hrooted : w.Rooted) (hcreated : w'.created = w.created)
    (h : ∀ t, (w.tasks t).Alike (w'.tasks t)) : Evolves j w w' := by
  refine .of_tree hrooted hcreated (fun t => (h t).parent) (fun t => (h t).scope)
    (fun t ht => (h t).requested.trans ht) fun t ht => ?_
  rcases (h t).state with hstate | ⟨hstate, -⟩
  · exact hstate
  · rw [ht] at hstate
    cases hstate

lemma World.TaskOk.of_alike (h : w.TaskOk t) (halike : (w.tasks t).Alike (w'.tasks t))
    (hpublished : (w.tasks t).publishedTerminal = true → (w.tasks t).state.terminal = true)
    (hcreated : w'.created = w.created) (hclosed : ∀ r ∈ w.closed, r ∈ w'.closed)
    (hlists : ∀ s, (w'.scopes s).tasks = (w.scopes s).tasks) : w'.TaskOk t := by
  obtain ⟨hscope, hattached, hparent, hrequested, hcause, hpub, hstep, hstate⟩ := halike
  constructor
  · rw [hrequested, hcause]
    exact h.caused
  · rw [hrequested]
    have := h.outcome
    grind [State.terminal]
  · rw [hpub, hstep]
    intro hp
    have := h.published hp
    have := hclosed t
    grind
  · rw [hcreated, hattached, hpub]
    exact h.attached
  · rw [hcreated, hattached, hscope, hlists]
    exact h.listed

/-- A thread moves, and no task changes to cancellation. -/
lemma World.Canc.goto (h : w.Canc) (hs : w.Sched) (j : ℕ)
    (halike : ∀ t, (w.tasks t).Alike (w'.tasks t)) (hcreated : w'.created = w.created)
    (hclosed : ∀ r ∈ w.closed, r ∈ w'.closed)
    (hnew : ∀ r ∈ w'.closed, r ∈ w.closed ∨ w.Closing j r)
    (hreturned : ∀ r ∈ w'.returned, r ∈ w.returned ∨ r ∈ w'.closed)
    (hthreads : ∀ i, i ≠ j → w'.threads i = w.threads i)
    (hholder : ∀ i s, i ≠ j → (w.scopes s).holder = some i → (w'.scopes s).holder = some i)
    (hlists : ∀ s, (w'.scopes s).tasks = (w.scopes s).tasks)
    (hj : w'.ThreadOk j (w'.threads j)) : w'.Canc :=
  h.move hs j (.of_alike h.rooted hcreated halike) hclosed hnew hreturned hthreads hholder
    (fun t _ _ => ⟨(halike t).published, (halike t).attached⟩)
    (fun t => (h.tasks t).of_alike (halike t) (hs.sound t).published hcreated hclosed hlists) hj

/-! ### The critical sections -/

namespace World

lemma wake_alike (w : World) (t k : ℕ) : (w.tasks k).Alike ((w.wake t).tasks k) := by
  unfold World.wake
  constructor <;> grind [World.enqueue, State.terminal]

@[simp, grind =] lemma wake_closed (w : World) (t : ℕ) : (w.wake t).closed = w.closed := by
  unfold World.wake
  grind [World.enqueue]

@[simp, grind =] lemma wake_returned (w : World) (t : ℕ) : (w.wake t).returned = w.returned := by
  unfold World.wake
  grind [World.enqueue]

/-- A thread goes on, and nothing else happens. -/
lemma Canc.setPc (h : w.Canc) (hs : w.Sched) {pc : Pc} (hpc : w.ThreadOk j pc) :
    (w.setPc j pc).Canc := by
  refine h.goto hs j (fun _ => .rfl) rfl (fun _ => id) (fun _ => .inl) (fun _ => .inl) (by grind)
    (fun _ _ _ => id) (fun _ => rfl) ?_
  rw [setPc_threads, if_pos rfl]
  exact hpc

lemma wake_threadOk (h : w.Canc) (hs : w.Sched) (t i : ℕ) :
    (w.wake t).ThreadOk i (w.threads i) := by
  have he : Evolves (i + 1) w (w.wake t) :=
    .of_alike h.rooted (wake_created w t) (wake_alike w t)
  refine he.threadOk (Nat.ne_of_lt i.lt_succ_self) h.rooted (h.threads i) (by grind) (by grind)
    (by grind) ?_ ?_
  · intro k _
    exact ⟨(wake_alike w t k).published, (wake_alike w t k).attached⟩
  · intro k step hk
    exact hs.owned i k (by rw [hk]; rfl) (by rw [hk]; rfl)

lemma Canc.wake (h : w.Canc) (hs : w.Sched) (t : ℕ) : (w.wake t).Canc := by
  refine h.goto hs 0 (wake_alike w t) (by grind) (by grind) (by grind) (by grind) (by grind)
    (by grind) (by grind) ?_
  rw [wake_threads]
  exact wake_threadOk h hs t 0

/-- A task that is not over is marked. -/
lemma Canc.mark (h : w.Canc) (hs : w.Sched) {cause : Cause} (hmarkable : w.markable t = true)
    {pc : Pc} (hpc : (w.mark t cause).ThreadOk j pc) : ((w.mark t cause).setPc j pc).Canc := by
  rw [markable, Bool.and_eq_true, Bool.not_eq_true', Bool.not_eq_true'] at hmarkable
  have hkeeps : ∀ k, ((w.mark t cause).tasks k).publishedTerminal = (w.tasks k).publishedTerminal ∧
      ((w.mark t cause).tasks k).attached = (w.tasks k).attached := by
    intro k
    rw [World.mark]
    grind
  have he : Evolves j w ((w.mark t cause).setPc j pc) := by
    rw [World.mark]
    apply Evolves.of_tree h.rooted <;> grind
  refine h.move hs j he (fun _ => id) (fun _ => .inl) (fun _ => .inl) (by grind)
    (fun _ _ _ => id) (fun k _ _ => hkeeps k) ?_ (by rw [setPc_threads, if_pos rfl]; exact hpc)
  intro k
  have hk := h.tasks k
  by_cases hkt : k = t
  · subst hkt
    rw [World.mark]
    constructor
    · cases (w.tasks k).cancellationCause <;> simp
    · grind [State.terminal]
    · grind
    · have := hk.attached
      grind
    · have := hk.listed
      grind
  · have htask : ((w.mark t cause).setPc j pc).tasks k = w.tasks k := by
      rw [World.mark]
      grind
    exact hk.of_alike (htask ▸ .rfl) (hs.sound k).published rfl (fun _ => id) fun _ => rfl

/-- A running task comes to a terminal state: cancelled, or another one if it is not marked. -/
lemma Canc.finish (h : w.Canc) (hs : w.Sched) (hj : w.threads j = .resuming t) {state : State}
    (hrequested : state = .cancelled ∨ (w.tasks t).cancellationRequested = false) {pc : Pc}
    (hpc : (w.setTask t { w.tasks t with state, rerunRequested := false }).ThreadOk j pc) :
    ((w.setTask t { w.tasks t with state, rerunRequested := false }).setPc j pc).Canc := by
  have hrunning := hs.resumes j t (by rw [hj]; rfl)
  refine h.move hs j ?_ (fun _ => id) (fun _ => .inl) (fun _ => .inl) (by grind)
    (fun _ _ _ => id) ?_ ?_ ?_
  · apply Evolves.of_tree h.rooted <;> grind [State.terminal]
  · grind
  · intro k
    have hk := h.tasks k
    have hpublished := (hs.sound k).published
    by_cases hkt : k = t
    · subst hkt
      constructor
      · have := hk.caused
        grind
      · grind
      · grind [State.terminal]
      · have := hk.attached
        grind
      · have := hk.listed
        grind
    · exact hk.of_alike (by grind [Record.Alike.rfl]) hpublished rfl (fun _ => id) fun _ => rfl
  · rw [setPc_threads, if_pos rfl]
    exact hpc

/-- A running task is not published, and so still attached. -/
lemma Canc.running_attached (h : w.Canc) (hs : w.Sched) (hrunning : (w.tasks t).state = .running) :
    (w.tasks t).publishedTerminal = false ∧ (w.tasks t).attached = true := by
  have hlt := hs.lt_created (t := t) (by rw [hrunning]; simp)
  have hpublished : (w.tasks t).publishedTerminal = false := by
    have := (hs.sound t).published
    grind [State.terminal]
  refine ⟨hpublished, ?_⟩
  by_contra hattached
  rw [Bool.not_eq_true] at hattached
  have := (h.tasks t).attached hlt hattached
  grind

lemma Canc.publish (h : w.Canc) (hs : w.Sched) {step : Step}
    (hj : w.threads j = .publishing t step) : (w.publish j t step).Canc := by
  have hthread := h.threads j
  rw [hj] at hthread
  obtain ⟨hstate, hpublished, hattached, hclosed⟩ := hthread
  rw [World.publish]
  refine h.move hs j ?_ (fun _ => id) (fun _ => .inl) (fun _ => .inl) (by grind)
    (fun _ _ _ => id) ?_ ?_ ?_
  · apply Evolves.of_tree h.rooted <;> grind
  · have howned : (w.threads j).owned = some t := by rw [hj]; rfl
    grind
  · intro k
    have hk := h.tasks k
    by_cases hkt : k = t
    · subst hkt
      constructor
      · have := hk.caused
        grind
      · have := hk.outcome
        grind
      · intro _
        refine ⟨step, by grind, by grind, fun hcancelled => ?_⟩
        refine hclosed ?_
        have : (w.tasks k).state = .cancelled := by grind
        rw [this] at hstate
        cases step with
        | cancelled => rfl
        | _ => cases hstate
      · grind
      · have := hk.listed
        grind
    · exact hk.of_alike (by grind [Record.Alike.rfl]) (hs.sound k).published rfl (fun _ => id) fun _ => rfl
  · rw [setPc_threads, if_pos rfl]
    show ((w.setTask t _).tasks t).publishedTerminal = true
    grind

lemma Canc.remove (h : w.Canc) (hs : w.Sched) (hj : w.threads j = .removing t) :
    (w.removeFromScope j t).Canc := by
  have hthread : (w.tasks t).publishedTerminal = true := by
    have := h.threads j
    rw [hj] at this
    exact this
  rw [World.removeFromScope]
  refine h.move hs j ?_ (fun _ => id) (fun _ => .inl) (fun _ => .inl) (by grind) (by grind) ?_ ?_ ?_
  · apply Evolves.of_tree h.rooted <;> grind
  · have howned : (w.threads j).owned = some t := by rw [hj]; rfl
    grind
  · intro k
    have hk := h.tasks k
    have hmem : k ≠ t → ∀ l : List ℕ, k ∈ l → k ∈ l.erase t :=
      fun hne l hl => (List.mem_erase_of_ne hne).2 hl
    constructor
    · have := hk.caused
      grind
    · have := hk.outcome
      grind
    · have := hk.published
      grind
    · have := hk.attached
      grind
    · have := hk.listed
      grind
  · rw [setPc_threads, if_pos rfl]
    trivial

/-- The mutex of a scope is taken or given back by `j`. -/
lemma Canc.setHolder (h : w.Canc) (hs : w.Sched) {s : ℕ} {holder : Option ℕ} {requested : Bool}
    (hholder : (w.scopes s).holder = none ∨ (w.scopes s).holder = some j) {pc : Pc}
    (hpc : (w.setScope s { w.scopes s with
      holder, cancellationRequested := requested }).ThreadOk j pc) :
    ((w.setScope s { w.scopes s with
      holder, cancellationRequested := requested }).setPc j pc).Canc := by
  refine h.goto hs j (fun _ => .rfl) rfl (fun _ => id) (fun _ => .inl) (fun _ => .inl) (by grind)
    (by grind) (by grind) ?_
  rw [setPc_threads, if_pos rfl]
  exact hpc

/-- What is below a task is in its scope; what has left the list is over. -/
lemma Canc.settled_or_listed (h : w.Canc) (hs : w.Sched) {d r : ℕ} (hd : Descends w d r) :
    w.Settled d ∨ d ∈ (w.scopes (w.tasks r).scope).tasks := by
  have hlt : d < w.created := by
    obtain ⟨p, hp, -⟩ := descends_iff.1 hd
    by_contra hge
    rw [hs.fresh d (Nat.le_of_not_lt hge)] at hp
    cases hp
  cases hattached : (w.tasks d).attached with
  | false =>
    have hpublished := (h.tasks d).attached hlt hattached
    exact .inl (.inr ((hs.sound d).published hpublished))
  | true =>
    rw [Descends.scope h.rooted hd]
    exact .inr ((h.tasks d).listed hlt hattached)

lemma Canc.lockScope (h : w.Canc) (hs : w.Sched) {s : ℕ} {call : Cancellation} {requested : Bool}
    (hj : w.threads j = .lockScope call s) (hholder : (w.scopes s).holder = none) :
    ((w.setScope s { w.scopes s with
      holder := some j, cancellationRequested := requested }).setPc j
        (.visit call s (w.scopes s).tasks)).Canc := by
  refine h.setHolder hs (.inl hholder) ?_
  obtain ⟨target, cause, publisher⟩ := call
  refine ⟨by rw [setScope_scopes, if_pos rfl], ?_⟩
  rintro r rfl
  have hthread := h.threads j
  rw [hj] at hthread
  obtain ⟨hroot, rfl⟩ := hthread
  exact ⟨hroot, rfl, fun d hd => h.settled_or_listed hs hd⟩

/-- A task that is passed over is not below the root, or it is over. -/
lemma Canc.visitSkip (h : w.Canc) (hs : w.Sched) {s : ℕ} {call : Cancellation} {rest : List ℕ}
    (hj : w.threads j = .visit call s (t :: rest))
    (hskip : w.visits call t = true → w.markable t = false) :
    (w.setPc j (.visit call s rest)).Canc := by
  refine h.setPc hs ?_
  have hthread := h.threads j
  rw [hj] at hthread
  obtain ⟨target, cause, publisher⟩ := call
  refine ⟨hthread.1, ?_⟩
  rintro r rfl
  obtain ⟨hroot, hscope, hbelow⟩ := hthread.2 r rfl
  refine ⟨hroot, hscope, fun d hd => ?_⟩
  rcases hbelow d hd with hsettled | hmem
  · exact .inl hsettled
  · rcases List.mem_cons.1 hmem with rfl | hrest
    · have hvisits : w.visits ⟨.tree r, cause, publisher⟩ d = true := by
        have hne : d ≠ r := Nat.ne_of_gt (Descends.lt h.rooted hd)
        rw [visits, Bool.and_eq_true, bne_iff_ne, descendsFrom_iff h.rooted r d d (Nat.le_refl d)]
        exact ⟨hne, hd⟩
      have hover := hskip hvisits
      have hpublished := (hs.sound d).published
      refine .inl (.inr ?_)
      rw [markable] at hover
      grind
    · exact .inr hrest

lemma Canc.visitMark (h : w.Canc) (hs : w.Sched) {s : ℕ} {call : Cancellation} {rest : List ℕ}
    (hj : w.threads j = .visit call s (t :: rest)) (hmarkable : w.markable t = true) :
    ((w.mark t call.cause).setPc j (.wakeVisited call s t rest)).Canc := by
  refine h.mark hs hmarkable ?_
  have hthread := h.threads j
  rw [hj] at hthread
  obtain ⟨target, cause, publisher⟩ := call
  refine ⟨hthread.1, ?_⟩
  rintro r rfl
  obtain ⟨hroot, hscope, hbelow⟩ := hthread.2 r rfl
  have he : Evolves (j + 1) w (w.mark t cause) := by
    rw [World.mark]
    apply Evolves.of_tree h.rooted <;> grind
  refine ⟨he.rootOk hroot ?_, (he.scope r hroot.1).trans hscope, fun d hd => ?_⟩
  · intro _
    rw [World.mark]
    grind
  · have hparent : ∀ k, ((w.mark t cause).tasks k).parent = (w.tasks k).parent := by
      intro k
      rw [World.mark]
      grind
    rw [descends_congr hparent] at hd
    rcases hbelow d hd with hsettled | hmem
    · exact .inl (he.settled hsettled)
    · rcases List.mem_cons.1 hmem with rfl | hrest
      · refine .inl (.inl ?_)
        rw [World.mark]
        grind
      · exact .inr hrest

/-- A marked task that is published ended cancelled, so its worker has closed it. -/
lemma Canc.leaveDetached (h : w.Canc) (hs : w.Sched) {root : ℕ} {cause : Cause}
    (hj : w.threads j = .readScope root cause false)
    (hgone : (w.tasks root).publishedTerminal = true ∨ (w.tasks root).attached = false) :
    World.Canc { w.setPc j .idle with returned := root :: w.returned } := by
  have hthread := h.threads j
  rw [hj] at hthread
  obtain ⟨hlt, hrequested⟩ := hthread
  have hrequested' : (w.tasks root).cancellationRequested = true := hrequested
  have hroot := h.tasks root
  have hpublished : (w.tasks root).publishedTerminal = true := hgone.elim id (hroot.attached hlt)
  have hclosed : root ∈ w.closed := by
    obtain ⟨step, -, hstep, hclosed⟩ := hroot.published hpublished
    have houtcome := hroot.outcome
    have hterminal := Step.terminal_of_state? hstep
    grind [State.terminal]
  exact h.goto hs j (fun _ => .rfl) rfl (by grind) (by grind) (by grind) (by grind) (by grind)
    (by grind) (by simp [ThreadOk])

/-- The end of a visit closes its root. -/
lemma Canc.finishVisit (h : w.Canc) (hs : w.Sched) {s : ℕ} {call : Cancellation}
    (hj : w.threads j = .visit call s []) : (w.finishVisit j call s).Canc := by
  have hthread := h.threads j
  rw [hj] at hthread
  obtain ⟨target, cause, publisher⟩ := call
  obtain ⟨hholder, hvisiting⟩ := hthread
  cases target with
  | all => exact h.setHolder hs (.inr hholder) trivial
  | tree root =>
    obtain ⟨hroot, rfl, hbelow⟩ := hvisiting root rfl
    have hbelow' : ∀ d, Descends w d root → w.Settled d := by
      intro d hd
      exact (hbelow d hd).elim id nofun
    cases publisher with
    | false =>
      have hclosing : w.Closing j root := ⟨.inl hroot.2, hbelow', hholder⟩
      rw [World.finishVisit]
      exact h.goto hs j (fun _ => .rfl) rfl (by grind) (by grind) (by grind) (by grind) (by grind)
        (by grind) (by simp [ThreadOk])
    | true =>
      obtain ⟨hlt, hstate, hpublished, hattached⟩ := hroot
      have hclosing : w.Closing j root := ⟨.inr (by rw [hstate]; rfl), hbelow', hholder⟩
      rw [World.finishVisit]
      refine h.goto hs j (fun _ => .rfl) rfl (by grind) (by grind) (by grind) (by grind) (by grind)
        (by grind) ?_
      simp [ThreadOk, hstate, hpublished, hattached, Step.state?]

/-- A parent that is running is marked if it is closed, or below a closed task. -/
lemma Canc.beginCreate (h : w.Canc) (hs : w.Sched) {s e : ℕ} {parent : Option ℕ}
    (hholder : (w.scopes s).holder = none) (hparent : w.parentRunning s parent = true) :
    ((w.setScope s { w.scopes s with holder := some j }).setPc j (.creating s e parent)).Canc := by
  refine h.setHolder hs (.inl hholder) ⟨by rw [setScope_scopes, if_pos rfl], ?_⟩
  rintro p rfl
  simp only [parentRunning, Bool.and_eq_true, decide_eq_true_eq] at hparent
  obtain ⟨⟨⟨⟨⟨hlt, -⟩, hrunning⟩, -⟩, -⟩, hscope⟩ := hparent
  refine ⟨hlt, hscope, fun r hr hd => ?_⟩
  have hsettled : w.Settled p := by
    rcases hd with rfl | hd
    · exact (h.closed p hr).1
    · exact (h.closed r hr).2 p hd
  rcases hsettled with hrequested | hterminal
  · exact hrequested
  · rw [hrunning] at hterminal
    cases hterminal

lemma newTask_caused (w : World) (s e : ℕ) (parent : Option ℕ)
    (h : (w.newTask s e parent).cancellationRequested = true) :
    (w.newTask s e parent).cancellationCause ≠ none := by
  unfold newTask at h ⊢
  dsimp only at h ⊢
  rw [if_pos h]
  exact Option.some_ne_none _

lemma newTask_requested (w : World) (s e p : ℕ) (h : (w.tasks p).cancellationRequested = true) :
    (w.newTask s e (some p)).cancellationRequested = true := by
  simp [newTask, h]

section Create

variable {s e : ℕ} {parent : Option ℕ}

/-- The state after `create_on`. -/
def afterCreate (w : World) (j s e : ℕ) (parent : Option ℕ) : World :=
  ((w.setScope s { w.scopes s with holder := none }).insertTask s e parent).setPc j .idle

lemma afterCreate_tasks (w : World) (j s e : ℕ) (parent : Option ℕ) (k : ℕ) :
    (w.afterCreate j s e parent).tasks k = if k = w.created then
      (w.setScope s { w.scopes s with holder := none }).newTask s e parent else w.tasks k := by
  rw [afterCreate, insertTask_eq]
  grind

lemma afterCreate_scopes (w : World) (j s e : ℕ) (parent : Option ℕ) (k : ℕ) :
    (w.afterCreate j s e parent).scopes k = if k = s then
      { w.scopes s with holder := none, tasks := w.created :: (w.scopes s).tasks }
        else w.scopes k := by
  rw [afterCreate, insertTask_eq]
  grind

/-- A new task is below its parent and what that is below; the rest of the tree stays. -/
lemma afterCreate_evolves (h : w.Canc) (hs : w.Sched) (hj : w.threads j = .creating s e parent) :
    Evolves j w (w.afterCreate j s e parent) := by
  have hthread := h.threads j
  rw [hj] at hthread
  obtain ⟨hholder, hparent⟩ := hthread
  have htasks := afterCreate_tasks w j s e parent
  have hnew : ((w.setScope s { w.scopes s with holder := none }).newTask s e parent).parent =
    parent := rfl
  have hscope : ((w.setScope s { w.scopes s with holder := none }).newTask s e parent).scope =
    s := rfl
  have hfresh := hs.fresh w.created (Nat.le_refl _)
  have hold : ∀ t p, (w.tasks t).parent = some p → t < w.created := by
    intro t p hp
    by_contra hge
    rw [hs.fresh t (Nat.le_of_not_lt hge)] at hp
    cases hp
  have hrooted : (w.afterCreate j s e parent).Rooted := by
    intro t p hp
    by_cases ht : t = w.created
    · subst ht
      obtain ⟨hlt, hs, -⟩ := hparent p (by grind)
      grind
    · have := h.rooted t p (by grind)
      have := hold t p (by grind)
      grind
  have hbelow : ∀ r d, d ≠ w.created → Descends (w.afterCreate j s e parent) d r →
      Descends w d r := by
    intro r d
    induction d using Nat.strongRecOn with
    | _ d ih =>
      intro hne hd
      obtain ⟨p, hp, hrest⟩ := descends_iff.1 hd
      rw [htasks, if_neg hne] at hp
      have hlt := (h.rooted d p hp).1
      have hlt' := hold d p hp
      exact descends_iff.2 ⟨p, hp, hrest.imp id (ih p hlt (by omega))⟩
  constructor
  · exact Nat.le_succ _
  · exact hrooted
  · intro d r hd
    by_cases hne : d = w.created
    · subst hne
      obtain ⟨p, hp, hrest⟩ := descends_iff.1 hd
      have hp' : parent = some p := by rw [htasks, if_pos rfl] at hp; exact hp
      obtain ⟨hlt, hps, hmarked⟩ := hparent p hp'
      have hrest' := hrest.imp id (hbelow r p (by omega))
      refine .inr ⟨Nat.le_refl _, ?_, fun hr => .inl ?_⟩
      · rcases hrest' with rfl | hd
        · rw [hps]
          exact hholder
        · rw [Descends.scope h.rooted hd, hps]
          exact hholder
      · rw [htasks, if_pos rfl, hp']
        exact newTask_requested _ s e p (hmarked r hr hrest')
    · exact .inl (hbelow r d hne hd)
  · intro t ht
    grind
  · intro t ht
    have : (w.tasks w.created).cancellationRequested = false := by rw [hfresh]; rfl
    grind
  · intro t ht
    have : (w.tasks w.created).state.terminal = false := by rw [hfresh]; rfl
    grind

lemma Canc.create (h : w.Canc) (hs : w.Sched) (hj : w.threads j = .creating s e parent) :
    (w.afterCreate j s e parent).Canc := by
  have hthread := h.threads j
  rw [hj] at hthread
  have htasks := afterCreate_tasks w j s e parent
  have hscopes := afterCreate_scopes w j s e parent
  have hcreated : (w.afterCreate j s e parent).created = w.created + 1 := rfl
  have hthreads : ∀ i, (w.afterCreate j s e parent).threads i =
      if i = j then .idle else w.threads i := by
    intro i
    rw [afterCreate, insertTask_eq]
    grind
  refine h.move hs j (afterCreate_evolves h hs hj) (fun _ => id) (fun _ => .inl) (fun _ => .inl)
    (by grind) (by grind [ThreadOk]) (by grind) ?_ (by rw [hthreads, if_pos rfl]; trivial)
  intro t
  by_cases ht : t = w.created
  · subst ht
    constructor
    · rw [htasks, if_pos rfl]
      exact newTask_caused _ s e parent
    · rw [htasks, if_pos rfl]
      exact nofun
    · rw [htasks, if_pos rfl]
      exact nofun
    · rw [htasks, if_pos rfl]
      exact nofun
    · rw [htasks, if_pos rfl]
      intro _ _
      show w.created ∈ ((w.afterCreate j s e parent).scopes s).tasks
      rw [hscopes, if_pos rfl]
      exact List.mem_cons_self
  · have hk := h.tasks t
    constructor
    · rw [htasks, if_neg ht]
      exact hk.caused
    · rw [htasks, if_neg ht]
      exact hk.outcome
    · rw [htasks, if_neg ht]
      exact hk.published
    · rw [htasks, if_neg ht, hcreated]
      exact fun hlt => hk.attached (by omega)
    · rw [htasks, if_neg ht, hcreated]
      intro hlt hattached
      have := hk.listed (by omega) hattached
      grind

end Create

end World

/-! ## Every move -/

/-- **Every move keeps the invariant of cancellation.** -/
theorem World.Canc.move_keeps (h : w.Canc) (hs : w.Sched) (hb : w.Bounded) (hmove : Move w w') :
    w'.Canc := by
  cases hmove with
  | @wake t => exact h.wake hs t
  | shutdown =>
    exact h.goto hs 0 (fun _ => .rfl) rfl (fun _ => id) (fun _ => .inl) (fun _ => .inl)
      (fun _ _ => rfl) (fun _ _ _ => id) (fun _ => rfl) (h.threads 0)
  | beginCreate hj hholder hparent => exact h.beginCreate hs hholder hparent
  | @refuseCreate j s e parent hj =>
    have hthread := h.threads j
    rw [hj] at hthread
    exact h.setHolder hs (.inr hthread.1) trivial
  | create hj => exact h.create hs hj
  | beginRebind hj => exact h.setPc hs trivial
  | retainExecutor hj => exact h.setPc hs trivial
  | refuseRebind hj => exact h.setPc hs trivial
  | @rebind j t e s hj hlocked hrunning =>
    refine h.goto hs j ?_ rfl (fun _ => id) (fun _ => .inl) (fun _ => .inl) (by grind)
      (fun _ _ _ => id) (fun _ => rfl) (by simp [ThreadOk])
    intro k
    constructor <;> grind
  | beginCancel hj => exact h.setPc hs trivial
  | @markRoot j root cause hj hlocked hmarkable =>
    have hlt := hb.mentioned j root (by rw [hj]; exact rfl)
    refine h.mark hs hmarkable ⟨hlt, ?_⟩
    rw [World.mark]
    grind
  | refuseRoot hj => exact h.setPc hs trivial
  | @wakeRoot j root cause hj =>
    have hlt := hb.mentioned j root (by rw [hj]; exact rfl)
    have hthread := wake_threadOk h hs root j
    rw [hj] at hthread
    exact (h.wake hs root).setPc (hs.wake hlt) hthread
  | @readScope j root cause publisher hj hpublished =>
    have hthread := h.threads j
    rw [hj] at hthread
    exact h.setPc hs ⟨hthread, rfl⟩
  | leaveDetached hj hgone => exact h.leaveDetached hs hj hgone
  | @publishDetached j root cause hj hgone =>
    have hthread := h.threads j
    rw [hj] at hthread
    obtain ⟨-, -, hpublished, hattached⟩ := hthread
    grind
  | beginScopeCancel hj => exact h.setPc hs trivial
  | lockScope hj hholder => exact h.lockScope hs hj hholder
  | visitMark hj hlocked hmarkable => exact h.visitMark hs hj hmarkable
  | visitSkip hj hskip => exact h.visitSkip hs hj hskip
  | @wakeVisited j s t call rest hj =>
    have hlt := hb.mentioned j t (by rw [hj]; exact .inl rfl)
    have hthread := wake_threadOk h hs t j
    rw [hj] at hthread
    exact (h.wake hs t).setPc (hs.wake hlt) hthread
  | finishVisit hj => exact h.finishVisit hs hj
  | @dequeue j e t rest hj hqueue =>
    have hqueued : (w.tasks t).state = .queued := by
      have hcount := hs.queue e t
      rw [hqueue, List.count_cons_self] at hcount
      grind
    refine h.goto hs j ?_ rfl (fun _ => id) (fun _ => .inl) (fun _ => .inl) (by grind)
      (fun _ _ _ => id) (fun _ => rfl) (by simp [ThreadOk])
    intro k
    constructor <;> grind [State.terminal]
  | @cancelled j t cause hj =>
    have hrunning := hs.resumes j t (by rw [hj]; rfl)
    have hlt := hs.lt_created (t := t) (by rw [hrunning]; simp)
    have hattached := h.running_attached hs hrunning
    refine h.finish hs hj (.inl rfl) ⟨hlt, ?_⟩
    simp [hattached]
  | @finished j t step state hj hlocked hstep hne hrequested =>
    have hrunning := hs.resumes j t (by rw [hj]; rfl)
    have hattached := h.running_attached hs hrunning
    refine h.finish hs hj (.inr hrequested) ?_
    simp [ThreadOk, hattached, hstep, hne]
  | @hold j t e step hj =>
    refine h.goto hs j ?_ rfl (fun _ => id) (fun _ => .inl) (fun _ => .inl) (by grind)
      (fun _ _ _ => id) (fun _ => rfl) (by simp [ThreadOk])
    intro k
    constructor <;> grind
  | @requeue j t e step hj =>
    rw [enqueue_setTask]
    have hrunning := hs.resumes j t (by rw [hj]; rfl)
    refine h.goto hs j ?_ rfl (fun _ => id) (fun _ => .inl) (fun _ => .inl) (by grind)
      (fun _ _ _ => id) (fun _ => rfl) (by simp [ThreadOk])
    intro k
    constructor <;> grind [State.terminal]
  | @suspend j t e step hj =>
    have hrunning := hs.resumes j t (by rw [hj]; rfl)
    refine h.goto hs j ?_ rfl (fun _ => id) (fun _ => .inl) (fun _ => .inl) (by grind)
      (fun _ _ _ => id) (fun _ => rfl) (by simp [ThreadOk])
    intro k
    constructor <;> grind [State.terminal]
  | publish hj => exact h.publish hs hj
  | remove hj => exact h.remove hs hj

/-- What no move takes back. -/
structure Lasts (w w' : World) : Prop where
  requested : ∀ t, (w.tasks t).cancellationRequested = true →
    (w'.tasks t).cancellationRequested = true
  cause : ∀ t c, (w.tasks t).cancellationCause = some c → (w'.tasks t).cancellationCause = some c
  returned : ∀ r ∈ w.returned, r ∈ w'.returned

lemma Lasts.refl (w : World) : Lasts w w := ⟨fun _ => id, fun _ _ => id, fun _ => id⟩

lemma Lasts.trans {w₁ w₂ w₃ : World} (h : Lasts w₁ w₂) (h' : Lasts w₂ w₃) : Lasts w₁ w₃ where
  requested := fun t ht => h'.requested t (h.requested t ht)
  cause := fun t c hc => h'.cause t c (h.cause t c hc)
  returned := fun r hr => h'.returned r (h.returned r hr)

lemma Lasts.of_tasks (htasks : ∀ t, (w'.tasks t).cancellationRequested =
      (w.tasks t).cancellationRequested ∧
        (w'.tasks t).cancellationCause = (w.tasks t).cancellationCause)
    (hreturned : ∀ r ∈ w.returned, r ∈ w'.returned) : Lasts w w' where
  requested := fun t ht => (htasks t).1.trans ht
  cause := fun t _ hc => (htasks t).2.trans hc
  returned := hreturned

/-- The first cause stays. -/
lemma Lasts.mark (w : World) (t j : ℕ) (cause : Cause) (pc : Pc) :
    Lasts w ((w.mark t cause).setPc j pc) := by
  rw [World.mark]
  constructor
  · grind
  · intro k c hc
    by_cases hk : k = t
    · subst hk
      simp [hc]
    · grind
  · exact fun _ => id

lemma Move.lasts (hs : w.Sched) (hmove : Move w w') : Lasts w w' := by
  cases hmove with
  | markRoot => exact Lasts.mark ..
  | visitMark => exact Lasts.mark ..
  | @create j s e parent hj =>
    have htasks := World.afterCreate_tasks w j s e parent
    have hfresh := hs.fresh w.created (Nat.le_refl _)
    have hnone : (w.tasks w.created).cancellationRequested = false ∧
        (w.tasks w.created).cancellationCause = none := by
      rw [hfresh]
      exact ⟨rfl, rfl⟩
    refine ⟨fun t ht => ?_, fun t c hc => ?_, fun _ => id⟩
    · rw [← World.afterCreate, htasks, if_neg (by grind)]
      exact ht
    · rw [← World.afterCreate, htasks, if_neg (by grind)]
      exact hc
  | @wake t =>
    have halike := World.wake_alike w t
    exact .of_tasks (fun k => ⟨(halike k).requested, (halike k).cause⟩) (by grind)
  | @wakeRoot j t =>
    have halike := World.wake_alike w t
    exact .of_tasks (fun k => ⟨(halike k).requested, (halike k).cause⟩) (by grind)
  | @wakeVisited j s t =>
    have halike := World.wake_alike w t
    exact .of_tasks (fun k => ⟨(halike k).requested, (halike k).cause⟩) (by grind)
  | @finishVisit j s call hj =>
    obtain ⟨target, cause, publisher⟩ := call
    cases target with
    | all => exact .of_tasks (fun _ => ⟨rfl, rfl⟩) fun _ => id
    | tree root =>
      cases publisher with
      | false => exact .of_tasks (fun _ => ⟨rfl, rfl⟩) fun _ => List.mem_cons_of_mem root
      | true => exact .of_tasks (fun _ => ⟨rfl, rfl⟩) fun _ => id
  | _ =>
    apply Lasts.of_tasks <;>
      grind [World.publish, World.removeFromScope, World.enqueue]

/-! ## In every run -/

lemma World.Canc.init : World.init.Canc where
  rooted := nofun
  tasks := fun _ => ⟨nofun, nofun, nofun, fun h => absurd h (Nat.not_lt_zero _), nofun⟩
  closed := nofun
  returned := nofun
  threads := fun _ => trivial

lemma canc_of_reachable (h : Interleaving.Reachable step World.init w) :
    w.Sched ∧ w.Bounded ∧ w.Canc :=
  h.induction (motive := fun w => w.Sched ∧ w.Bounded ∧ w.Canc)
    ⟨World.Sched.init, World.Bounded.init, World.Canc.init⟩ fun _ _ _ hw hstep =>
      ⟨hw.1.move_keeps hw.2.1 (move_of_step hstep), hw.2.1.move_keeps hw.1 (move_of_step hstep),
        hw.2.2.move_keeps hw.1 hw.2.1 (move_of_step hstep)⟩

/-- What holds at `w` lasts, and what holds of every reachable state holds later as well. -/
lemma lasts_of_reachable (h : Interleaving.Reachable step World.init w)
    (h' : Interleaving.Reachable step w w') :
    Interleaving.Reachable step World.init w' ∧ Lasts w w' :=
  h'.induction (motive := fun w' => Interleaving.Reachable step World.init w' ∧ Lasts w w')
    ⟨h, .refl w⟩ fun _ _ _ hw hstep =>
      ⟨hw.1.tail hstep, hw.2.trans ((move_of_step hstep).lasts (sched_of_reachable hw.1).1)⟩

/-- **Cancellation.**  Let a run lead to `w` and go on to `w'`.  A cancellation that has marked a
task and returned at `w` leaves every task below it that is still live at `w'` marked, also those
created in between.  A task that is marked at `w` is not published as completed or failed, and the
cause of its cancellation stays. -/
theorem reachable_cancelled (w w' : World) (h : Interleaving.Reachable step World.init w)
    (h' : Interleaving.Reachable step w w') :
    (∀ r ∈ w.returned, ∀ d, Descends w' d r → (w'.tasks d).state.terminal = false →
      (w'.tasks d).cancellationRequested = true) ∧
    (∀ t, (w.tasks t).cancellationRequested = true → (w'.tasks t).publishedTerminal = true →
      (w'.tasks t).terminalStep = some .cancelled) ∧
    (∀ t c, (w.tasks t).cancellationCause = some c →
      (w'.tasks t).cancellationCause = some c) := by
  obtain ⟨hreach, hlasts⟩ := lasts_of_reachable h h'
  obtain ⟨-, -, hcanc⟩ := canc_of_reachable hreach
  refine ⟨fun r hr d hd hlive => ?_, fun t ht hpublished => ?_, hlasts.cause⟩
  · have hclosed := hcanc.returned r (hlasts.returned r hr)
    rcases (hcanc.closed r hclosed).2 d hd with hrequested | hterminal
    · exact hrequested
    · rw [hlive] at hterminal
      cases hterminal
  · obtain ⟨step, hstep, hstate, -⟩ := (hcanc.tasks t).published hpublished
    have houtcome := (hcanc.tasks t).outcome
    have hrequested := hlasts.requested t ht
    rw [hstep]
    cases step with
    | suspended => cases hstate
    | reschedule => cases hstate
    | cancelled => rfl
    | completed => grind [Step.state?]
    | failed => grind [Step.state?]

/-- A task runs and creates a child; then a cancellation of the task marks both and returns. -/
def cancelledTree : List Action :=
  [.beginCreate 0 0 0 none, .advance 0, .dequeue 1 0, .beginCreate 0 0 0 (some 0), .advance 0,
    .beginCancel 0 0 .ownerRequest, .advance 0, .advance 0, .advance 0, .advance 0, .advance 0,
    .advance 0, .advance 0, .advance 0]

/-- The task, which is still running, creates another child. -/
def lateChild : List Action := [.beginCreate 0 0 0 (some 0), .advance 0]

theorem cancelledTree_lateChild : ∃ w w', Interleaving.run step World.init cancelledTree = some w ∧
    Interleaving.run step w lateChild = some w' ∧ w'.created = 3 ∧
      (w'.tasks 2).cancellationRequested = true := by
  have hrun : (Interleaving.run step World.init cancelledTree).bind (fun w =>
      (Interleaving.run step w lateChild).map fun w' => (w.returned, w'.created,
        (w'.tasks 2).parent, (w'.tasks 2).state)) = some ([0], 3, some 0, .queued) := by
    decide
  obtain ⟨w, hw, hrun⟩ := Option.bind_eq_some_iff.1 hrun
  obtain ⟨w', hw', hstate⟩ := Option.map_eq_some_iff.1 hrun
  simp only [Prod.mk.injEq] at hstate
  obtain ⟨hreturned, hcreated, hparent, hqueued⟩ := hstate
  refine ⟨w, w', hw, hw', hcreated, ?_⟩
  refine (reachable_cancelled w w' ⟨_, hw⟩ ⟨_, hw'⟩).1 0 ?_ 2 (.single hparent) ?_
  · rw [hreturned]
    exact List.mem_cons_self
  · rw [hqueued]
    rfl

end Task

end Chtholly
