import Chtholly.Graph.Backward
import Chtholly.Loans.Liveness
import Chtholly.Worklist.Stable

/-!
# What the liveness of the loan analysis covers

When the liveness converges, its sets are exact: a result is in the set of an instruction that the
graph reaches when a path without a new run of that result leads to an operand that the liveness
counts.  The kinds it counts are fewer than those whose operand loans flow, so that the arguments of
an indirect call, of an indirect foreign call and of a callback adapter call are covered only where
something else uses them later.

## Main definitions

* `Loans.FunctionBody.CoversOperands` — every operand is live from its definition to its use.
* `Loans.FunctionBody.UsedAgain` — what the liveness counts later.

## Main results

* `Loans.FunctionBody.mem_instIn_iff`, `Loans.FunctionBody.mem_localIn_iff` — the sets are exact.
* `Loans.FunctionBody.coversOperands_iff` — operands are covered where they are counted later.
* `Loans.FunctionBody.liveness_covers_iff` — the operands of the kinds that are missing.
-/

set_option autoImplicit false

namespace Chtholly

namespace Loans

/-! ## The equation of an instruction -/

lemma mem_joinOver {ids : List InstId} {sets : InstId → Finset ℕ} {x : ℕ} :
    x ∈ joinOver ids sets ↔ ∃ id ∈ ids, x ∈ sets id := by
  have hfold : ∀ joined : Finset ℕ, x ∈ ids.foldl (fun joined id => joined ∪ sets id) joined ↔
      x ∈ joined ∨ ∃ id ∈ ids, x ∈ sets id := by
    induction ids with
    | nil => simp
    | cons id ids ih =>
      intro joined
      rw [List.foldl_cons, ih, Finset.mem_union, or_assoc, List.exists_mem_cons_iff]
  rw [joinOver, hfold]
  exact or_iff_right (Finset.notMem_empty x)

namespace FunctionBody

variable {body : FunctionBody} {a b id : InstId} {x : ℕ}

lemma mem_appendInst {target source : List InstId} :
    x ∈ appendInst target source ↔ x ∈ target ∨ x ∈ source := by
  induction source generalizing target with
  | nil => simp [appendInst]
  | cons y source ih =>
    have hrest := @ih (if y ∈ target then target else target ++ [y])
    refine hrest.trans ?_
    rw [List.mem_cons]
    by_cases hy : y ∈ target
    · rw [if_pos hy]
      constructor
      · exact Or.imp_right Or.inr
      · rintro (hmem | rfl | hmem)
        · exact Or.inl hmem
        · exact Or.inl hy
        · exact Or.inr hmem
    · rw [if_neg hy, List.mem_append, List.mem_singleton, or_assoc]

/-- An edge of the graph. -/
def Edge (body : FunctionBody) (a b : InstId) : Prop :=
  (a, b) ∈ body.cfg.edges

lemma mem_successors : b ∈ body.successors a ↔ body.Edge a b := by
  rw [successors, mem_appendInst, Edge]
  simp

/-- The instructions that an entry of the graph leads to. -/
def Executable (body : FunctionBody) (id : InstId) : Prop :=
  DenseWorklist.Reached body.successors body.cfg.entries id

lemma mem_order : id ∈ body.order ↔ body.Executable id := by
  rw [order, List.mem_insertionSort]
  refine DenseWorklist.mem_reach_iff body.entries_lt ?_ _
  exact fun a b hb => body.edges_lt _ (mem_successors.1 hb)

lemma Executable.lt (h : body.Executable id) : id < body.tables.instCount := by
  obtain ⟨start, hstart, hpath⟩ := h
  cases hpath with
  | refl => exact body.entries_lt _ hstart
  | tail _ hstep => exact body.edges_lt _ (mem_successors.1 hstep)

lemma Executable.edge (h : body.Executable a) (hedge : body.Edge a b) : body.Executable b :=
  h.step (mem_successors.2 hedge)

/-- An operand that the liveness counts at an instruction. -/
def UsesInst (body : FunctionBody) (id x : InstId) : Prop :=
  x ∈ (body.inst id).liveOperands body.tables ∧ x < body.tables.instCount ∧
    body.carriesBorrow x = true

/-- A result is live: the liveness counts it before the instruction that computes it runs again. -/
def LiveInst (body : FunctionBody) (x : InstId) : InstId → Prop :=
  Backward.Live body.Edge body.UsesInst (fun id x => id = x) x

/-- A local is live: it is read before it gets a new value. -/
def LiveLocal (body : FunctionBody) (x : LocalId) : InstId → Prop :=
  Backward.Live body.Edge (fun id x => body.usedLocal? id = some x)
    (fun id x => body.definedLocal? id = some x) x

lemma mem_foldl_addUse {raws : List ℕ} {live : Finset InstId} :
    x ∈ raws.foldl body.addUse live ↔
      x ∈ live ∨ x ∈ raws ∧ x < body.tables.instCount ∧ body.carriesBorrow x = true := by
  induction raws generalizing live with
  | nil => simp
  | cons raw raws ih =>
    have hadd : x ∈ body.addUse live raw ↔
        x ∈ live ∨ x = raw ∧ x < body.tables.instCount ∧ body.carriesBorrow x = true := by
      rw [addUse]
      by_cases hcond : raw < body.tables.instCount ∧ body.carriesBorrow raw = true
      · rw [if_pos hcond, Finset.mem_insert, or_comm]
        refine or_congr_right ⟨?_, And.left⟩
        rintro rfl
        exact ⟨rfl, hcond⟩
      · rw [if_neg hcond]
        refine (or_iff_left ?_).symm
        rintro ⟨rfl, hx⟩
        exact hcond hx
    rw [List.foldl_cons, ih, hadd, List.mem_cons, or_and_right, or_assoc]

variable {store : InstId → LiveSets}

lemma mem_evaluate_instIn : x ∈ (body.evaluate id store).instIn ↔
    body.UsesInst id x ∨ ¬ id = x ∧ ∃ m, body.Edge id m ∧ x ∈ (store m).instIn := by
  simp only [evaluate, mem_foldl_addUse, Finset.mem_erase, mem_joinOver, mem_successors]
  rw [or_comm, UsesInst, ne_comm]

lemma mem_evaluate_localIn : x ∈ (body.evaluate id store).localIn ↔
    body.usedLocal? id = some x ∨
      ¬ body.definedLocal? id = some x ∧ ∃ m, body.Edge id m ∧ x ∈ (store m).localIn := by
  have hkept (localOut : Finset ℕ) : (x ∈ localOut ↔
      ∃ m, body.Edge id m ∧ x ∈ (store m).localIn) → ∀ defined,
      (x ∈ localOut.erase defined ↔
        defined ≠ x ∧ ∃ m, body.Edge id m ∧ x ∈ (store m).localIn) := by
    intro hout defined
    rw [Finset.mem_erase, hout, ne_comm]
  have hout : x ∈ joinOver (body.successors id) (fun m => (store m).localIn) ↔
      ∃ m, body.Edge id m ∧ x ∈ (store m).localIn := by
    simp only [mem_joinOver, mem_successors]
  cases hused : body.usedLocal? id with
  | none =>
    cases hdefined : body.definedLocal? id with
    | none => simpa [evaluate, hused, hdefined] using hout
    | some defined => simpa [evaluate, hused, hdefined] using hkept _ hout defined
  | some used =>
    cases hdefined : body.definedLocal? id with
    | none => simpa [evaluate, hused, hdefined, eq_comm] using or_congr_right hout
    | some defined =>
      simpa [evaluate, hused, hdefined, eq_comm] using or_congr_right (hkept _ hout defined)

/-- The sets of an instruction depend on those of its successors. -/
lemma reads_evaluate : Worklist.Reads body.evaluate fun a b => b ∈ body.successors a := by
  intro id store store' hsame
  have hjoin : ∀ part : LiveSets → Finset ℕ,
      joinOver (body.successors id) (fun m => part (store m)) =
        joinOver (body.successors id) fun m => part (store' m) := by
    intro part
    ext x
    rw [mem_joinOver, mem_joinOver]
    exact exists_congr fun m => and_congr_right fun hm => by rw [hsame m hm]
  simp only [evaluate, hjoin LiveSets.instIn, hjoin LiveSets.localIn]

/-! ## The loop -/

/-- Before a round of the loop. -/
structure Rounds (body : FunctionBody) (worklist : DenseWorklist) (store : InstId → LiveSets) :
    Prop where
  valid : worklist.Valid
  idCount : worklist.idCount = body.tables.instCount
  covered : Worklist.Covered body.evaluate store body.order worklist.pending
  liveInst : ∀ x n, x ∈ (store n).instIn → body.LiveInst x n
  liveLocal : ∀ x n, x ∈ (store n).localIn → body.LiveLocal x n

variable {worklist rest : DenseWorklist}

/-- The loop starts with every instruction pending and empty sets. -/
lemma Rounds.create : Rounds body
    ((DenseWorklist.create body.tables.instCount .fifo).pushAll body.order.reverse)
    fun _ => .empty where
  valid := (DenseWorklist.Valid.create _ _).pushAll _
  idCount := DenseWorklist.idCount_pushAll _ _
  covered id hid := by
    refine Or.inl ((DenseWorklist.Valid.create _ _).mem_pending_pushAll.2 (Or.inr ⟨?_, ?_⟩))
    · exact List.mem_reverse.2 hid
    · exact (mem_order.1 hid).lt
  liveInst x n hx := absurd hx (Finset.notMem_empty x)
  liveLocal x n hx := absurd hx (Finset.notMem_empty x)

lemma Rounds.covered_taken (h : Rounds body worklist store)
    (htaken : DenseWorklist.Taken worklist id rest) :
    Worklist.Covered body.evaluate store body.order (id :: rest.pending) :=
  h.covered.mono fun _ hmem => htaken.pending.mem_iff.1 hmem

/-- An instruction whose sets stay is taken out. -/
lemma Rounds.keep (h : Rounds body worklist store)
    (htaken : DenseWorklist.Taken worklist id rest) (hsame : body.evaluate id store = store id) :
    Rounds body rest store where
  valid := htaken.valid
  idCount := htaken.idCount.trans h.idCount
  covered := (h.covered_taken htaken).keep fun _ => hsame.symm
  liveInst := h.liveInst
  liveLocal := h.liveLocal

/-- An instruction whose sets change is taken out, and its predecessors are put in. -/
lemma Rounds.update (h : Rounds body worklist store)
    (htaken : DenseWorklist.Taken worklist id rest) :
    Rounds body (rest.pushAll (body.predecessors id))
      (Function.update store id (body.evaluate id store)) where
  valid := htaken.valid.pushAll _
  idCount := by rw [DenseWorklist.idCount_pushAll, htaken.idCount, h.idCount]
  covered := by
    refine (h.covered_taken htaken).update reads_evaluate
      (fun other hother => htaken.valid.mem_pending_pushAll.2 (Or.inl hother)) ?_
    intro reader hreader hreads
    refine htaken.valid.mem_pending_pushAll.2 (Or.inr ⟨?_, ?_⟩)
    · exact List.mem_filter.2 ⟨hreader, decide_eq_true hreads⟩
    · rw [htaken.idCount, h.idCount]
      exact (mem_order.1 hreader).lt
  liveInst x n hx := by
    by_cases heq : n = id
    · rw [heq, Function.update_self, mem_evaluate_instIn] at hx
      rw [heq]
      exact Backward.live_of_equation (fun m => ↑(store m).instIn) (h.liveInst x) hx
    · rw [Function.update_of_ne heq] at hx
      exact h.liveInst x n hx
  liveLocal x n hx := by
    by_cases heq : n = id
    · rw [heq, Function.update_self, mem_evaluate_localIn] at hx
      rw [heq]
      exact Backward.live_of_equation (fun m => ↑(store m).localIn) (h.liveLocal x) hx
    · rw [Function.update_of_ne heq] at hx
      exact h.liveLocal x n hx

variable {limit : ℕ} {live : InstId → LiveSets}

/-- When the loop ends, nothing is pending. -/
lemma Rounds.livenessLoop {rounds : ℕ} (h : Rounds body worklist store)
    (hloop : body.livenessLoop limit rounds worklist store = some live) :
    ∃ last, last.pending = [] ∧ Rounds body last live := by
  induction rounds generalizing worklist store with
  | zero => cases hloop
  | succ rounds ih =>
    rw [FunctionBody.livenessLoop] at hloop
    cases hpop : worklist.pop with
    | none =>
      rw [hpop] at hloop
      cases hloop
      exact ⟨worklist, h.valid.pop_eq_none.1 hpop, h⟩
    | some taken =>
      obtain ⟨id, rest⟩ := taken
      rw [hpop] at hloop
      dsimp only at hloop
      have htaken := h.valid.pop_eq_some hpop
      split_ifs at hloop with hlimit hsame
      · exact ih (h.keep htaken hsame) hloop
      · exact ih (h.update htaken) hloop

/-- The limit bounds the loop: more rounds than the limit has change nothing. -/
theorem livenessLoop_fuel (rounds more : ℕ) (hvalid : worklist.Valid)
    (hle : worklist.processedCount ≤ limit) (hlt : limit < worklist.processedCount + rounds) :
    body.livenessLoop limit (rounds + more) worklist store =
      body.livenessLoop limit rounds worklist store := by
  induction rounds generalizing worklist store with
  | zero => omega
  | succ rounds ih =>
    rw [Nat.add_right_comm, FunctionBody.livenessLoop, FunctionBody.livenessLoop]
    cases hpop : worklist.pop with
    | none => rfl
    | some taken =>
      obtain ⟨id, rest⟩ := taken
      have htaken := hvalid.pop_eq_some hpop
      have hcount := htaken.processedCount
      dsimp only
      by_cases hlimit : limit < rest.processedCount
      · rw [if_pos hlimit, if_pos hlimit]
      rw [if_neg hlimit, if_neg hlimit]
      by_cases hsame : body.evaluate id store = store id
      · rw [if_pos hsame, if_pos hsame]
        exact ih htaken.valid (by omega) (by omega)
      · rw [if_neg hsame, if_neg hsame]
        apply ih (htaken.valid.pushAll _)
        · rw [DenseWorklist.processedCount_pushAll]
          omega
        · rw [DenseWorklist.processedCount_pushAll]
          omega

/-! ## The sets are exact -/

lemma rounds_of_liveness (h : body.liveness = some live) :
    ∃ last, last.pending = [] ∧ Rounds body last live :=
  Rounds.create.livenessLoop h

lemma stable_of_liveness (h : body.liveness = some live) (hid : body.Executable id) :
    live id = body.evaluate id live := by
  obtain ⟨last, hempty, hlast⟩ := rounds_of_liveness h
  have hcovered := hlast.covered
  rw [hempty] at hcovered
  exact hcovered.stable (mem_order.2 hid)

/-- **The live results are exact.**  Where the graph reaches, a result is in the set of an
instruction when it is counted later. -/
theorem mem_instIn_iff (h : body.liveness = some live) (hid : body.Executable id) :
    x ∈ (live id).instIn ↔ body.LiveInst x id := by
  obtain ⟨last, -, hlast⟩ := rounds_of_liveness h
  constructor
  · exact hlast.liveInst x id
  · intro hlive
    refine Backward.mem_of_live (fun m => ↑(live m).instIn) {n | body.Executable n}
      (fun n hn m hedge => hn.edge hedge) ?_ hlive hid
    intro n hn x
    dsimp only
    rw [Finset.mem_coe, stable_of_liveness h hn, mem_evaluate_instIn]
    rfl

/-- **The live locals are exact.** -/
theorem mem_localIn_iff (h : body.liveness = some live) (hid : body.Executable id) :
    x ∈ (live id).localIn ↔ body.LiveLocal x id := by
  obtain ⟨last, -, hlast⟩ := rounds_of_liveness h
  constructor
  · exact hlast.liveLocal x id
  · intro hlive
    refine Backward.mem_of_live (fun m => ↑(live m).localIn) {n | body.Executable n}
      (fun n hn m hedge => hn.edge hedge) ?_ hlive hid
    intro n hn x
    dsimp only
    rw [Finset.mem_coe, stable_of_liveness h hn, mem_evaluate_localIn]
    rfl

/-! ## Operands -/

end FunctionBody

/-- The kinds with an operand block that the liveness does not count. -/
def Uncounted (kind : SemInstKind) : Prop :=
  kind = .indirectCall ∨ kind = .indirectForeignCall ∨ kind = .callbackAdapterCall

instance (kind : SemInstKind) : Decidable (Uncounted kind) :=
  inferInstanceAs (Decidable (_ ∨ _ ∨ _))

namespace SemInst

variable {tables : Tables} {inst : SemInst} {u : InstId}

/-- The operand block of an instruction of those kinds. -/
lemma loanBlock?_of_uncounted (h : Uncounted inst.kind) : inst.loanBlock? = some inst.arg1 := by
  rcases h with h | h | h <;> simp [loanBlock?, h]

lemma liveBlock?_of_uncounted (h : Uncounted inst.kind) : inst.liveBlock? = Option.none := by
  rcases h with h | h | h <;> simp [liveBlock?, h]

lemma liveBlock?_eq (h : ¬ Uncounted inst.kind) : inst.liveBlock? = inst.loanBlock? := by
  unfold Uncounted at h
  unfold liveBlock? loanBlock?
  cases hkind : inst.kind <;> simp_all

lemma mem_usedOperands : u ∈ inst.usedOperands tables ↔
    u ∈ inst.liveOperands tables ∨ Uncounted inst.kind ∧ u ∈ tables.instBlock inst.arg1 := by
  by_cases h : Uncounted inst.kind
  · rw [usedOperands, liveOperands, loanBlock?_of_uncounted h, liveBlock?_of_uncounted h]
    simp [h]
  · rw [usedOperands, liveOperands, liveBlock?_eq h]
    simp [h]

lemma mem_loanOperands : u ∈ inst.loanOperands tables ↔
    u ∈ inst.usedOperands tables ∨ inst.kind = .assign ∧ u = inst.arg0 := by
  by_cases h : inst.kind = .assign
  · simp [loanOperands, usedOperands, directOperands, semInstArgKinds, h]
    tauto
  · simp [loanOperands, usedOperands, h]

end SemInst

namespace FunctionBody

variable {body : FunctionBody} {live : InstId → LiveSets} {u v after n : InstId}
  {operands : Tables → SemInst → List InstId}

/-- The paths from an instruction on which a result is not computed anew. -/
def Path (body : FunctionBody) (u : InstId) : InstId → InstId → Prop :=
  Backward.Keeps body.Edge (fun id x => id = x) u

/-- The result of `u` is an operand of `v`, and `v` can be reached from just after `u`. -/
structure Handed (body : FunctionBody) (operands : Tables → SemInst → List InstId)
    (u after v : InstId) : Prop where
  executable : body.Executable u
  carries : body.carriesBorrow u = true
  operand : u ∈ operands body.tables (body.inst v)
  edge : body.Edge u after
  path : body.Path u after v

/-- Every operand is live at every instruction of every path from just after its definition to the
instruction that has it.  A path that ran the definition again would hand over its new result. -/
def CoversOperands (body : FunctionBody) (operands : Tables → SemInst → List InstId)
    (live : InstId → LiveSets) : Prop :=
  ∀ u after n v, body.Handed operands u after v → body.Path u after n → body.Path u n v →
    u ∈ (live n).instIn

/-- The liveness counts a result at an instruction or later, before it is computed anew. -/
def UsedAgain (body : FunctionBody) (u v : InstId) : Prop :=
  ∃ w, body.Path u v w ∧ u ∈ (body.inst w).liveOperands body.tables

lemma Handed.executable_of_path (h : body.Handed operands u after v) (hpath : body.Path u after n) :
    body.Executable n := by
  induction hpath with
  | refl => exact h.executable.edge h.edge
  | tail _ hstep ih => exact ih.edge hstep.2

lemma Handed.usedAgain_iff (h : body.Handed operands u after v) :
    body.UsedAgain u v ↔ body.LiveInst u v := by
  rw [LiveInst, Backward.live_iff]
  refine exists_congr fun w => and_congr_right fun _ => ?_
  exact ⟨fun hmem => ⟨hmem, h.executable.lt, h.carries⟩, And.left⟩

/-- **Operands are covered where they are counted later.** -/
theorem coversOperands_iff (h : body.liveness = some live) :
    body.CoversOperands operands live ↔
      ∀ u after v, body.Handed operands u after v → body.UsedAgain u v := by
  constructor
  · intro hcovers u after v hhanded
    rw [hhanded.usedAgain_iff]
    apply (mem_instIn_iff h (hhanded.executable_of_path hhanded.path)).1
    exact hcovers u after v v hhanded hhanded.path .refl
  · intro hagain u after n v hhanded hpath hrest
    rw [mem_instIn_iff h (hhanded.executable_of_path hpath)]
    exact Backward.Live.of_keeps hrest (hhanded.usedAgain_iff.1 (hagain u after v hhanded))

lemma usedAgain_of_mem (h : u ∈ (body.inst v).liveOperands body.tables) : body.UsedAgain u v :=
  ⟨v, .refl, h⟩

/-- **What the liveness covers.**  The operands that an instruction uses are covered when the
arguments of the three kinds that the liveness leaves out are counted later anyway.  Of all operands
whose loans flow, the targets of assignments have to be counted later too. -/
theorem liveness_covers_iff (body : FunctionBody) (live : InstId → LiveSets)
    (h : body.liveness = some live) :
    (body.CoversOperands (fun tables inst => inst.usedOperands tables) live ↔
        ∀ u after v, body.Handed (fun tables inst => inst.usedOperands tables) u after v →
          Uncounted (body.inst v).kind → u ∈ body.tables.instBlock (body.inst v).arg1 →
          body.UsedAgain u v) ∧
      (body.CoversOperands (fun tables inst => inst.loanOperands tables) live ↔
        ∀ u after v, body.Handed (fun tables inst => inst.loanOperands tables) u after v →
          Uncounted (body.inst v).kind ∧ u ∈ body.tables.instBlock (body.inst v).arg1 ∨
            (body.inst v).kind = .assign ∧ u = (body.inst v).arg0 →
          body.UsedAgain u v) := by
  rw [coversOperands_iff h, coversOperands_iff h]
  constructor
  · refine forall₃_congr fun u after v => forall_congr' fun hhanded => ?_
    refine ⟨fun hagain _ _ => hagain, fun hagain => ?_⟩
    rcases SemInst.mem_usedOperands.1 hhanded.operand with hmem | ⟨hkind, hmem⟩
    · exact usedAgain_of_mem hmem
    · exact hagain hkind hmem
  · refine forall₃_congr fun u after v => forall_congr' fun hhanded => ?_
    refine ⟨fun hagain _ => hagain, fun hagain => ?_⟩
    rcases SemInst.mem_loanOperands.1 hhanded.operand with hused | htarget
    · rcases SemInst.mem_usedOperands.1 hused with hmem | huncounted
      · exact usedAgain_of_mem hmem
      · exact hagain (Or.inl huncounted)
    · exact hagain (Or.inr htarget)

/-! ## A borrow that is dead while it is handed over -/

/-- The instructions of `f(&a, move a)`, where the last one is of the given kind: a name, a borrow of
`a`, the name of `a` and its move, and what is called with the borrow and the moved value. -/
def callTables (kind : SemInstKind) : Tables where
  instCount := 5
  inst := fun id => match id with
    | 0 => ⟨.nameRef, 2, 0, 0⟩
    | 1 => ⟨.other .loc .none, 1, 1, 0⟩
    | 2 => ⟨.nameRef, 0, 1, 0⟩
    | 3 => ⟨.other .inst .none, 0, 2, 0⟩
    | _ => ⟨kind, 0, 0, 0⟩
  instBlock := fun _ => [1, 3]
  localType := fun _ => 0
  carriesBorrow := fun type => type = 1

def callBlock : Block :=
  .mk 0 [.value (.nameRef 0 0), .value (.borrowLocal 1 1 1), .value (.nameRef 2 1),
    .value (.move 3 (.nameRef 2 1)), .other 4]

def callBody (kind : SemInstKind) : FunctionBody where
  tables := callTables kind
  root := callBlock
  plans := .none
  entries_lt := show ∀ id ∈ (loanCfg .none callBlock).entries, id < 5 by decide
  edges_lt := show ∀ edge ∈ (loanCfg .none callBlock).edges, edge.2 < 5 by decide

/-- The borrow is handed to the call. -/
lemma handed_callBody (kind : SemInstKind)
    (hoperand : 1 ∈ operands (callTables kind) ⟨kind, 0, 0, 0⟩) :
    (callBody kind).Handed operands 1 2 4 := by
  have hedges : ∀ a b, (a, b) ∈ (loanCfg .none callBlock).edges → (callBody kind).Edge a b :=
    fun _ _ hedge => hedge
  have hentry : 0 ∈ (callBody kind).cfg.entries :=
    show 0 ∈ (loanCfg .none callBlock).entries by decide
  constructor
  · exact ⟨0, hentry, .single (mem_successors.2 (hedges 0 1 (by decide)))⟩
  · rfl
  · exact hoperand
  · exact hedges 1 2 (by decide)
  · have hmiddle : (callBody kind).Path 1 2 3 := .single ⟨by decide, hedges 2 3 (by decide)⟩
    exact hmiddle.tail ⟨by decide, hedges 3 4 (by decide)⟩

/-- The arguments of a direct call are covered. -/
theorem liveness_covers_call : ∃ live, (callBody .call).liveness = some live ∧
    (callBody .call).CoversOperands (fun tables inst => inst.usedOperands tables) live := by
  have hconverges : (callBody .call).liveness.isSome = true := by decide
  obtain ⟨live, hlive⟩ := Option.isSome_iff_exists.1 hconverges
  refine ⟨live, hlive, (liveness_covers_iff _ live hlive).1.2 ?_⟩
  intro u after v _ hkind
  exfalso
  revert hkind
  match v with
  | 0 | 1 | 2 | 3 => decide
  | _ + 4 => exact fun hkind => absurd hkind (show ¬ Uncounted .call by decide)

/-- The arguments of an indirect call are not: the borrow is dead while its local is moved. -/
theorem indirectCall_not_covered : ¬ ∀ (body : FunctionBody) (live : InstId → LiveSets),
    body.liveness = some live →
    body.CoversOperands (fun tables inst => inst.usedOperands tables) live := by
  intro hcovers
  have hconverges : (callBody .indirectCall).liveness.isSome = true := by decide
  obtain ⟨live, hlive⟩ := Option.isSome_iff_exists.1 hconverges
  obtain ⟨w, -, hmem⟩ := (coversOperands_iff hlive).1 (hcovers _ live hlive) 1 2 4
    (handed_callBody .indirectCall (by decide))
  revert hmem
  match w with
  | 0 | 1 | 2 | 3 => decide
  | _ + 4 => exact show ¬ 1 ∈ (⟨.indirectCall, 0, 0, 0⟩ : SemInst).liveOperands (callTables _) by decide

end FunctionBody

end Loans

end Chtholly
