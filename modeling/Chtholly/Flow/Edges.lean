import Chtholly.Flow.LoanCfg

set_option autoImplicit false

/-!
# The edges of the two control-flow graphs

The graphs of the callable ownership analysis and of the loan analysis as relations between
instructions, for bodies without deferred blocks. For every kind of instruction an equation says
which edges it has, given the instructions that follow it, and the edges of every part of a body
start at instructions of the part.

## Main definitions

* `Chtholly.Block.verified` — what the verifier of the semantic IR checks of the shape of a body.
* `Chtholly.HasEdge` — an edge of the callable ownership graph, its condition forgotten.
* `Chtholly.GraphEnv.Edge`, `Chtholly.CfgEnv.Edge` — the edges of a list of instructions, and
  `InstEdge` those of one instruction.

## Main results

* `Chtholly.collectDefers_empty` — a body without deferred blocks has empty tables.
* `Chtholly.mem_ids_of_edge` — edges start at instructions of the part they come from.
-/

namespace Chtholly

/-! ## Shape of verified bodies -/

/-- An instruction of a type other than `void` and `never`: both arms of an `If`, the arms of a
`Switch` and a scoped block then end in a `Yield`, so they are not empty. -/
def Inst.yieldsValue : Inst → Bool
  | .ifInst _ _ [a, b] => !a.insts.isEmpty && !b.insts.isEmpty
  | .switch _ _ arms => arms.all fun a => !a.2.insts.isEmpty
  | .scopedBlock _ b => !b.insts.isEmpty
  | i => i.straightLine

/-- The condition block of a loop is not empty and its last instruction yields the value that is
tested, or closes the full expression that does. -/
def Block.verifiedCondition (c : Block) : Bool :=
  match c.insts.getLast? with
  | some i => i.yieldsValue
  | none => false

mutual

/-- The shape of an instruction that the verifier accepts: an `If` has one or two arms, and the
condition of a loop yields a value. -/
def Inst.verified : Inst → Bool
  | .ifInst _ _ arms => (arms.length == 1 || arms.length == 2) && verifiedBlocks arms
  | .scopedBlock _ b | .taskScope _ b | .defer _ b => b.verified
  | .whileLoop _ c b | .doWhile _ c b => c.verifiedCondition && c.verified && b.verified
  | .forLoop _ i c p b =>
    i.verified && c.verifiedCondition && c.verified && p.verified && b.verified
  | .switch _ _ arms => verifiedArms arms
  | _ => true

/-- The shape of a block that the verifier accepts. -/
def Block.verified : Block → Bool
  | .mk _ l => verifiedInsts l

/-- The shape of a list of instructions that the verifier accepts. -/
def verifiedInsts : List Inst → Bool
  | [] => true
  | i :: l => i.verified && verifiedInsts l

/-- The shape of the arms of an `If` that the verifier accepts. -/
def verifiedBlocks : List Block → Bool
  | [] => true
  | b :: l => b.verified && verifiedBlocks l

/-- The shape of the arms of a `Switch` that the verifier accepts. -/
def verifiedArms : List (Int × Block) → Bool
  | [] => true
  | (_, b) :: l => b.verified && verifiedArms l

end
/-! ## Edges as a relation -/

/-- The list has an edge between two instructions, under some condition. -/
def HasEdge (edges : List FunctionEdge) (x y : InstId) : Prop :=
  ∃ e ∈ edges, e.source = x ∧ e.instruction = y

@[simp] lemma hasEdge_nil (x y : InstId) : ¬ HasEdge [] x y := by
  rintro ⟨e, he, -⟩
  exact absurd he List.not_mem_nil

@[simp] lemma hasEdge_append (l l' : List FunctionEdge) (x y : InstId) :
    HasEdge (l ++ l') x y ↔ HasEdge l x y ∨ HasEdge l' x y := by
  constructor
  · rintro ⟨e, he, h⟩
    rcases List.mem_append.1 he with he | he
    · exact .inl ⟨e, he, h⟩
    · exact .inr ⟨e, he, h⟩
  · rintro (⟨e, he, h⟩ | ⟨e, he, h⟩)
    · exact ⟨e, List.mem_append_left _ he, h⟩
    · exact ⟨e, List.mem_append_right _ he, h⟩

@[simp] lemma hasEdge_map (s : InstId) (c : CallableConditionDescriptor) (l : List InstId)
    (x y : InstId) :
    HasEdge (l.map fun t => ⟨s, t, c⟩) x y ↔ x = s ∧ y ∈ l := by
  constructor
  · rintro ⟨e, he, rfl, rfl⟩
    obtain ⟨t, ht, rfl⟩ := List.mem_map.1 he
    exact ⟨rfl, ht⟩
  · rintro ⟨rfl, hy⟩
    exact ⟨_, List.mem_map.2 ⟨y, hy, rfl⟩, rfl, rfl⟩

@[simp] lemma hasEdge_plainEdges (s : InstId) (l : List InstId) (x y : InstId) :
    HasEdge (plainEdges s l) x y ↔ x = s ∧ y ∈ l :=
  hasEdge_map s _ l x y

@[simp] lemma hasEdge_branchEdges (s : InstId) (p : Option CallableConditionDescriptor)
    (yes no : List InstId) (x y : InstId) :
    HasEdge (branchEdges s p yes no) x y ↔ x = s ∧ (y ∈ yes ∨ y ∈ no) := by
  rw [branchEdges, hasEdge_append, hasEdge_map, hasEdge_map, and_or_left]

@[simp] lemma mem_succEdges (s : InstId) (l : List InstId) (x y : InstId) :
    (x, y) ∈ succEdges s l ↔ x = s ∧ y ∈ l := by
  simp only [succEdges, List.mem_map, Prod.mk.injEq]
  constructor
  · rintro ⟨t, ht, rfl, rfl⟩
    exact ⟨rfl, ht⟩
  · rintro ⟨rfl, hy⟩
    exact ⟨y, hy, rfl, rfl⟩

/-- `append_inst` joins the elements. -/
@[simp] lemma mem_appendInst (l l' : List InstId) (x : InstId) :
    x ∈ appendInst l l' ↔ x ∈ l ∨ x ∈ l' := by
  induction l' generalizing l with
  | nil => simp [appendInst]
  | cons y l' ih =>
    have hstep : appendInst l (y :: l') = appendInst (if y ∈ l then l else l ++ [y]) l' := rfl
    rw [hstep, ih]
    split
    · next hy =>
      simp only [List.mem_cons]
      constructor
      · rintro (h | h)
        · exact .inl h
        · exact .inr (.inr h)
      · rintro (h | rfl | h)
        · exact .inl h
        · exact .inl hy
        · exact .inr h
    · simp [or_assoc]

/-- The entries of a list of instructions before a tail. -/
def entriesOf : List Inst → List InstId → List InstId
  | [], tail => tail
  | i :: _, _ => [i.id]

@[simp] lemma entriesOf_nil (tail : List InstId) : entriesOf [] tail = tail := rfl

@[simp] lemma entriesOf_cons (i : Inst) (l : List Inst) (tail : List InstId) :
    entriesOf (i :: l) tail = [i.id] := rfl

/-- The instruction control enters a nonempty list at. -/
lemma entriesOf_of_head? {l : List Inst} {i : Inst} (h : l.head? = some i) (tail : List InstId) :
    entriesOf l tail = [i.id] := by
  cases l with
  | nil => simp at h
  | cons j l =>
    obtain rfl : j = i := by simpa using h
    rfl

/-- The entries of a list are its instructions or the tail. -/
lemma mem_entriesOf {l : List Inst} {tail : List InstId} {x : InstId} (h : x ∈ entriesOf l tail) :
    x ∈ instsIds l ∨ l = [] ∧ x ∈ tail := by
  cases l with
  | nil => exact .inr ⟨rfl, h⟩
  | cons i l =>
    obtain rfl : x = i.id := by simpa [entriesOf] using h
    exact .inl (by simp [instsIds])

/-! ## The builders without deferred blocks -/

/-- No entry of the tables holds a deferred block. -/
structure DeferTables.Empty (tables : DeferTables) : Prop where
  block : ∀ p ∈ tables.blockDefers, p.2 = []
  exit : ∀ p ∈ tables.exitDefers, p.2 = []

variable {tables : DeferTables}

/-- Writing an empty entry for an exit. -/
lemma DeferTables.Empty.setExit (h : tables.Empty) (id : InstId) :
    (tables.setExit id []).Empty := by
  refine ⟨h.block, fun p hp => ?_⟩
  rcases List.mem_cons.1 hp with rfl | hp
  · rfl
  · exact h.exit p hp

/-- Writing an empty entry for a block. -/
lemma DeferTables.Empty.setBlock (h : tables.Empty) (id : InstBlockId) :
    (tables.setBlock id []).Empty := by
  refine ⟨fun p hp => ?_, h.exit⟩
  rcases List.mem_cons.1 hp with rfl | hp
  · rfl
  · exact h.block p hp

/-- Writing the entry of an edge to a loop when no block is deferred. -/
lemma DeferTables.Empty.setLoopExit (h : tables.Empty) (id : InstId) (depth : Option Nat) :
    (tables.setLoopExit id [] depth).Empty := by
  cases depth with
  | none => exact h
  | some d =>
    rw [DeferTables.setLoopExit, List.drop_nil]
    exact h.setExit id

mutual

/-- An instruction without deferred blocks leaves the tables empty. -/
lemma Inst.collectDefers_empty : ∀ (i : Inst) (loops : List LoopDepth) (tables : DeferTables),
    i.deferDepth = 0 → tables.Empty →
    (i.collectDefers [] loops tables).1 = [] ∧ (i.collectDefers [] loops tables).2.Empty
  | .defer _ d, _, _, h, _ => by simp [Inst.deferDepth] at h
  | .ret id .ret v, loops, tables, _, ht => ⟨rfl, ht.setExit id⟩
  | .ret id .coroutineSuccess v, loops, tables, _, ht
  | .ret id .coroutineError v, loops, tables, _, ht
  | .ret id .coroutineCancelled v, loops, tables, _, ht => ⟨rfl, ht⟩
  | .brk id n, loops, tables, _, ht => ⟨rfl, ht.setLoopExit id _⟩
  | .cont id n, loops, tables, _, ht => ⟨rfl, ht.setLoopExit id _⟩
  | .ifInst _ _ arms, loops, tables, h, ht =>
    ⟨rfl, collectDefersBlocks_empty arms loops tables (by simpa [Inst.deferDepth] using h) ht⟩
  | .scopedBlock _ b, loops, tables, h, ht =>
    Block.collectDefers_empty b loops true tables (by simpa [Inst.deferDepth] using h) ht
  | .taskScope _ b, loops, tables, _, ht => ⟨rfl, ht⟩
  | .whileLoop _ c b, loops, tables, h, ht => by
    simp only [Inst.deferDepth, Nat.max_eq_zero_iff] at h
    have hc := Block.collectDefers_empty c (⟨0, 0⟩ :: loops) false tables h.1 ht
    have hb := Block.collectDefers_empty b (⟨0, 0⟩ :: loops) true _ h.2 hc.2
    exact ⟨rfl, hb.2⟩
  | .forLoop _ i c p b, loops, tables, h, ht => by
    simp only [Inst.deferDepth, Nat.max_eq_zero_iff] at h
    have hi := Block.collectDefers_empty i loops false tables h.1.1 ht
    have hc := Block.collectDefers_empty c (⟨0, 0⟩ :: loops) false _ h.1.2 hi.2
    have hb := Block.collectDefers_empty b (⟨0, 0⟩ :: loops) true _ h.2.2 hc.2
    have hp := Block.collectDefers_empty p (⟨0, 0⟩ :: loops) false _ h.2.1 hb.2
    simp only [Inst.collectDefers, hi.1, List.length_nil]
    exact ⟨trivial, hp.2⟩
  | .doWhile _ c b, loops, tables, h, ht => by
    simp only [Inst.deferDepth, Nat.max_eq_zero_iff] at h
    have hb := Block.collectDefers_empty b (⟨0, 0⟩ :: loops) true tables h.2 ht
    have hc := Block.collectDefers_empty c (⟨0, 0⟩ :: loops) false _ h.1 hb.2
    exact ⟨rfl, hc.2⟩
  | .switch _ _ arms, loops, tables, h, ht =>
    ⟨rfl, collectDefersArms_empty arms loops tables (by simpa [Inst.deferDepth] using h) ht⟩
  | .value _, _, _, _, ht | .declareUninitialized .., _, _, _, ht | .parameter .., _, _, _, ht
  | .bindName .., _, _, _, ht | .assign .., _, _, _, ht | .extendTemporary .., _, _, _, ht
  | .endFullExpression .., _, _, _, ht | .unrecoverableFailure _, _, _, _, ht
  | .other _, _, _, _, ht => ⟨rfl, ht⟩

/-- A block without deferred blocks leaves the tables empty. -/
lemma Block.collectDefers_empty : ∀ (b : Block) (loops : List LoopDepth) (lexicalScope : Bool)
    (tables : DeferTables), b.deferDepth = 0 → tables.Empty →
    (b.collectDefers [] loops lexicalScope tables).1 = [] ∧
      (b.collectDefers [] loops lexicalScope tables).2.Empty
  | .mk id l, loops, lexicalScope, tables, h, ht => by
    obtain ⟨h₁, h₂⟩ := collectDefersInsts_empty l loops tables (by simpa [Block.deferDepth] using h) ht
    simp only [Block.collectDefers, h₁]
    cases lexicalScope with
    | false => exact ⟨rfl, h₂⟩
    | true => exact ⟨rfl, h₂.setBlock id⟩

/-- A list of instructions without deferred blocks leaves the tables empty. -/
lemma collectDefersInsts_empty : ∀ (l : List Inst) (loops : List LoopDepth) (tables : DeferTables),
    deferDepthInsts l = 0 → tables.Empty →
    (collectDefersInsts l [] loops tables).1 = [] ∧ (collectDefersInsts l [] loops tables).2.Empty
  | [], _, _, _, ht => ⟨rfl, ht⟩
  | i :: l, loops, tables, h, ht => by
    simp only [deferDepthInsts, Nat.max_eq_zero_iff] at h
    obtain ⟨h₁, h₂⟩ := Inst.collectDefers_empty i loops tables h.1 ht
    simp only [collectDefersInsts, h₁]
    exact collectDefersInsts_empty l loops _ h.2 h₂

/-- The arms of an `If` without deferred blocks leave the tables empty. -/
lemma collectDefersBlocks_empty : ∀ (l : List Block) (loops : List LoopDepth)
    (tables : DeferTables), deferDepthBlocks l = 0 → tables.Empty →
    (collectDefersBlocks l [] loops tables).Empty
  | [], _, _, _, ht => ht
  | b :: l, loops, tables, h, ht => by
    simp only [deferDepthBlocks, Nat.max_eq_zero_iff] at h
    exact collectDefersBlocks_empty l loops _ h.2
      (Block.collectDefers_empty b loops true tables h.1 ht).2

/-- The arms of a `Switch` without deferred blocks leave the tables empty. -/
lemma collectDefersArms_empty : ∀ (l : List (Int × Block)) (loops : List LoopDepth)
    (tables : DeferTables), deferDepthArms l = 0 → tables.Empty →
    (collectDefersArms l [] loops tables).Empty
  | [], _, _, _, ht => ht
  | (_, b) :: l, loops, tables, h, ht => by
    simp only [deferDepthArms, Nat.max_eq_zero_iff] at h
    exact collectDefersArms_empty l loops _ h.2
      (Block.collectDefers_empty b loops true tables h.1 ht).2

end

/-- The tables of a body without deferred blocks are empty. -/
lemma collectDefers_empty {body : Block} (h : body.deferDepth = 0) : (collectDefers body).Empty :=
  (Block.collectDefers_empty body [] false {} h ⟨by simp, by simp⟩).2

/-- An entry found in a table without deferred blocks is empty. -/
lemma getD_lookup_of_forall {l : List (Nat × List Block)} (h : ∀ p ∈ l, p.2 = []) (k : Nat) :
    (l.lookup k).getD [] = [] := by
  cases hl : l.lookup k with
  | none => rfl
  | some d =>
    obtain ⟨l₁, l₂, rfl, -⟩ := List.lookup_eq_some_iff.1 hl
    exact h (k, d) (by simp)

/-- An exit of a body without deferred blocks runs none. -/
lemma DeferTables.Empty.exitDefersOf (h : tables.Empty) (id : InstId) :
    tables.exitDefersOf id = [] :=
  getD_lookup_of_forall h.exit id

/-- A block of a body without deferred blocks runs none. -/
lemma DeferTables.Empty.blockDefersOf (h : tables.Empty) (id : InstBlockId) :
    tables.blockDefersOf id = [] :=
  getD_lookup_of_forall h.block id

section Edges

variable {E : GraphEnv} (hE : E.tables.Empty) {F : CfgEnv} (hF : F.plans = .none)

include hE in
/-- A block is built from its instructions. -/
lemma GraphEnv.build_eq (b : Block) (tail : List InstId) (targets : List LoopTargets) :
    E.build b tail targets = E.buildInsts b.insts tail targets := by
  cases b with
  | mk id l => simp [GraphEnv.build, hE.blockDefersOf, GraphEnv.cleanupEntries]

include hF in
/-- A block is built from its instructions. -/
lemma CfgEnv.buildCfg_eq (b : Block) (tail : List InstId) (targets : List LoopTargets) :
    F.buildCfg b tail targets = F.buildCfgInsts b.insts tail targets := by
  cases b with
  | mk id l => simp [CfgEnv.buildCfg, hF, CleanupPlans.none, CfgEnv.cleanupEntries]

/-- The entries of a list of instructions. -/
@[simp] lemma GraphEnv.buildInsts_fst (l : List Inst) (tail : List InstId)
    (targets : List LoopTargets) : (E.buildInsts l tail targets).1 = entriesOf l tail := by
  cases l with
  | nil => simp [GraphEnv.buildInsts, entriesOf]
  | cons i l => simp [GraphEnv.buildInsts, entriesOf]

/-- The entries of a list of instructions. -/
@[simp] lemma CfgEnv.buildCfgInsts_fst (l : List Inst) (tail : List InstId)
    (targets : List LoopTargets) : (F.buildCfgInsts l tail targets).1 = entriesOf l tail := by
  cases l with
  | nil => simp [CfgEnv.buildCfgInsts, entriesOf]
  | cons i l => simp [CfgEnv.buildCfgInsts, entriesOf]

/-- The edge relation of an instruction in the graph of the callable ownership analysis. -/
def GraphEnv.InstEdge (E : GraphEnv) (i : Inst) (current : List InstId)
    (targets : List LoopTargets) (x y : InstId) : Prop :=
  HasEdge (E.buildInst i current targets) x y

/-- The edge relation of a list of instructions in the graph of the callable ownership analysis. -/
def GraphEnv.Edge (E : GraphEnv) (l : List Inst) (tail : List InstId)
    (targets : List LoopTargets) (x y : InstId) : Prop :=
  HasEdge (E.buildInsts l tail targets).2 x y

/-- The edge relation of an instruction in the graph of the loan analysis. -/
def CfgEnv.InstEdge (F : CfgEnv) (i : Inst) (current : List InstId)
    (targets : List LoopTargets) (x y : InstId) : Prop :=
  (x, y) ∈ (F.buildCfgInst i current targets).2 ∨
    x = i.id ∧ y ∈ (F.buildCfgInst i current targets).1

/-- The edge relation of a list of instructions in the graph of the loan analysis. -/
def CfgEnv.Edge (F : CfgEnv) (l : List Inst) (tail : List InstId)
    (targets : List LoopTargets) (x y : InstId) : Prop :=
  (x, y) ∈ (F.buildCfgInsts l tail targets).2

lemma GraphEnv.edge_nil (tail : List InstId) (targets : List LoopTargets) (x y : InstId) :
    ¬ E.Edge [] tail targets x y := by
  simp [GraphEnv.Edge, GraphEnv.buildInsts]

lemma CfgEnv.edge_nil (tail : List InstId) (targets : List LoopTargets) (x y : InstId) :
    ¬ F.Edge [] tail targets x y := by
  simp [CfgEnv.Edge, CfgEnv.buildCfgInsts]

/-- The edges of a list are those of its first instruction, which the rest follows, and those of
the rest. -/
lemma GraphEnv.edge_cons (i : Inst) (l : List Inst) (tail : List InstId)
    (targets : List LoopTargets) (x y : InstId) :
    E.Edge (i :: l) tail targets x y ↔
      E.Edge l tail targets x y ∨ E.InstEdge i (entriesOf l tail) targets x y := by
  simp [GraphEnv.Edge, GraphEnv.InstEdge, GraphEnv.buildInsts]

/-- The edges of a list are those of its first instruction, which the rest follows, and those of
the rest. -/
lemma CfgEnv.edge_cons (i : Inst) (l : List Inst) (tail : List InstId)
    (targets : List LoopTargets) (x y : InstId) :
    F.Edge (i :: l) tail targets x y ↔
      F.Edge l tail targets x y ∨ F.InstEdge i (entriesOf l tail) targets x y := by
  simp [CfgEnv.Edge, CfgEnv.InstEdge, CfgEnv.buildCfgInsts]

lemma or_or_or_left_comm {p q r s : Prop} : ((p ∨ q) ∨ r) ∨ s ↔ q ∨ (p ∨ r) ∨ s := by
  rw [or_assoc, or_assoc, or_left_comm, or_assoc]

/-! ### The edges of the callable ownership graph, kind by kind -/

include hE

lemma GraphEnv.instEdge_ret (id : InstId) (v : Value) (current : List InstId)
    (targets : List LoopTargets) (x y : InstId) :
    ¬ E.InstEdge (.ret id .ret v) current targets x y := by
  simp [GraphEnv.InstEdge, GraphEnv.buildInst, hE.exitDefersOf, GraphEnv.cleanupEntries]

lemma GraphEnv.instEdge_brk (id : InstId) (n : Nat) (current : List InstId)
    (targets : List LoopTargets) (x y : InstId) :
    E.InstEdge (.brk id n) current targets x y ↔
      x = id ∧ y ∈ (targets[n]?.map (·.breaks)).getD [] := by
  simp [GraphEnv.InstEdge, GraphEnv.buildInst, hE.exitDefersOf, GraphEnv.cleanupEntries]

lemma GraphEnv.instEdge_cont (id : InstId) (n : Nat) (current : List InstId)
    (targets : List LoopTargets) (x y : InstId) :
    E.InstEdge (.cont id n) current targets x y ↔
      x = id ∧ y ∈ (targets[n]?.map (·.continues)).getD [] := by
  simp [GraphEnv.InstEdge, GraphEnv.buildInst, hE.exitDefersOf, GraphEnv.cleanupEntries]

lemma GraphEnv.instEdge_if (id : InstId) (v : Value) (a : Block) (current : List InstId)
    (targets : List LoopTargets) (x y : InstId) :
    E.InstEdge (.ifInst id v [a]) current targets x y ↔
      E.Edge a.insts current targets x y ∨
        x = id ∧ (y ∈ entriesOf a.insts current ∨ y ∈ current) := by
  simp [GraphEnv.InstEdge, GraphEnv.Edge, GraphEnv.buildInst, GraphEnv.build_eq hE]

lemma GraphEnv.instEdge_ifElse (id : InstId) (v : Value) (a b : Block) (l : List Block)
    (current : List InstId) (targets : List LoopTargets) (x y : InstId) :
    E.InstEdge (.ifInst id v (a :: b :: l)) current targets x y ↔
      E.Edge a.insts current targets x y ∨ E.Edge b.insts current targets x y ∨
        x = id ∧ (y ∈ entriesOf a.insts current ∨ y ∈ entriesOf b.insts current) := by
  simp [GraphEnv.InstEdge, GraphEnv.Edge, GraphEnv.buildInst, GraphEnv.build_eq hE]

lemma GraphEnv.instEdge_switch (id : InstId) (v : Value) (arms : List (Int × Block))
    (current : List InstId) (targets : List LoopTargets) (x y : InstId) :
    E.InstEdge (.switch id v arms) current targets x y ↔
      (∃ a ∈ arms, E.Edge a.2.insts current targets x y) ∨
        x = id ∧ ∃ a ∈ arms, y ∈ entriesOf a.2.insts current := by
  simp only [GraphEnv.InstEdge, GraphEnv.buildInst]
  induction arms with
  | nil => simp [GraphEnv.buildArms]
  | cons a arms ih =>
    obtain ⟨k, b⟩ := a
    simp only [GraphEnv.buildArms, hasEdge_append, hasEdge_map, ih, GraphEnv.build_eq hE,
      GraphEnv.buildInsts_fst, List.exists_mem_cons_iff, and_or_left]
    rw [or_or_or_comm]
    rfl

lemma GraphEnv.instEdge_scopedBlock (id : InstId) (b : Block) (current : List InstId)
    (targets : List LoopTargets) (x y : InstId) :
    E.InstEdge (.scopedBlock id b) current targets x y ↔
      E.Edge b.insts current targets x y ∨ x = id ∧ y ∈ entriesOf b.insts current := by
  simp [GraphEnv.InstEdge, GraphEnv.Edge, GraphEnv.buildInst, GraphEnv.build_eq hE]

variable {c : Block} {f : Inst}

/-- The edges of a `While`; control leaves the condition from its last instruction. -/
lemma GraphEnv.instEdge_while (id : InstId) (b : Block) {z : Inst} (hf : c.insts.head? = some f)
    (hz : c.insts.getLast? = some z) (current : List InstId) (targets : List LoopTargets)
    (x y : InstId) :
    E.InstEdge (.whileLoop id c b) current targets x y ↔
      E.Edge b.insts [f.id] (⟨current, [f.id]⟩ :: targets) x y ∨
        (E.Edge c.insts [] targets x y ∨
          x = z.id ∧ (y ∈ entriesOf b.insts [f.id] ∨ y ∈ current)) ∨ x = id ∧ y = f.id := by
  simp [GraphEnv.InstEdge, GraphEnv.Edge, GraphEnv.buildInst, GraphEnv.build_eq hE, hf, hz,
    entriesOf_of_head? hf, or_assoc]

/-- The edges of a `For`. -/
lemma GraphEnv.instEdge_for (id : InstId) (i p : Block) (b : Block) {z : Inst}
    (hf : c.insts.head? = some f) (hz : c.insts.getLast? = some z) (current : List InstId)
    (targets : List LoopTargets) (x y : InstId) :
    E.InstEdge (.forLoop id i c p b) current targets x y ↔
      E.Edge p.insts [f.id] targets x y ∨
        E.Edge b.insts (entriesOf p.insts [f.id])
          (⟨current, entriesOf p.insts [f.id]⟩ :: targets) x y ∨
        (E.Edge c.insts [] targets x y ∨
          x = z.id ∧ (y ∈ entriesOf b.insts (entriesOf p.insts [f.id]) ∨ y ∈ current)) ∨
        E.Edge i.insts [f.id] targets x y ∨
        x = id ∧ y ∈ entriesOf i.insts [f.id] := by
  simp only [GraphEnv.InstEdge, GraphEnv.Edge, GraphEnv.buildInst, GraphEnv.build_eq hE, hf, hz,
    entriesOf_of_head? hf, GraphEnv.buildInsts_fst, hasEdge_append, hasEdge_plainEdges,
    hasEdge_branchEdges]
  simp only [or_assoc]

/-- The edges of a `DoWhile`. -/
lemma GraphEnv.instEdge_doWhile (id : InstId) (b : Block) {z : Inst} (hf : c.insts.head? = some f)
    (hz : c.insts.getLast? = some z) (current : List InstId) (targets : List LoopTargets)
    (x y : InstId) :
    E.InstEdge (.doWhile id c b) current targets x y ↔
      E.Edge b.insts [f.id] (⟨current, [f.id]⟩ :: targets) x y ∨
        (E.Edge c.insts [] targets x y ∨
          x = z.id ∧ (y ∈ entriesOf b.insts [f.id] ∨ y ∈ current)) ∨
        x = id ∧ y ∈ entriesOf b.insts [f.id] := by
  cases hb : b.insts with
  | nil =>
    simp [GraphEnv.InstEdge, GraphEnv.Edge, GraphEnv.buildInst, GraphEnv.build_eq hE, hz, hb,
      entriesOf_of_head? hf, GraphEnv.buildInsts, or_assoc]
  | cons j l =>
    simp only [GraphEnv.InstEdge, GraphEnv.Edge, GraphEnv.buildInst, GraphEnv.build_eq hE, hz, hb,
      List.head?_cons, entriesOf_of_head? hf, GraphEnv.buildInsts_fst, hasEdge_append,
      hasEdge_plainEdges, hasEdge_branchEdges, entriesOf_cons]
    exact or_or_or_left_comm

omit hE

/-- The instructions for which the callable ownership graph has no case of its own. -/
lemma GraphEnv.instEdge_straightLine {i : Inst} (hi : i.straightLine = true)
    (current : List InstId) (targets : List LoopTargets) (x y : InstId) :
    E.InstEdge i current targets x y ↔ x = i.id ∧ y ∈ current := by
  have h : E.buildInst i current targets = plainEdges i.id current := by
    cases i <;> first | rfl | simp [Inst.straightLine] at hi
  rw [GraphEnv.InstEdge, h, hasEdge_plainEdges]

lemma GraphEnv.instEdge_taskScope (id : InstId) (b : Block) (current : List InstId)
    (targets : List LoopTargets) (x y : InstId) :
    E.InstEdge (.taskScope id b) current targets x y ↔ x = id ∧ y ∈ current := by
  rw [GraphEnv.InstEdge, GraphEnv.buildInst_taskScope, hasEdge_plainEdges]

lemma GraphEnv.instEdge_unrecoverableFailure (id : InstId) (current : List InstId)
    (targets : List LoopTargets) (x y : InstId) :
    E.InstEdge (.unrecoverableFailure id) current targets x y ↔ x = id ∧ y ∈ current := by
  simp [GraphEnv.InstEdge, GraphEnv.buildInst, Inst.id]

/-- A coroutine return is not taken for a return. -/
lemma GraphEnv.instEdge_coroutineReturn (id : InstId) {k : ReturnKind} (hk : k ≠ .ret) (v : Value)
    (current : List InstId) (targets : List LoopTargets) (x y : InstId) :
    E.InstEdge (.ret id k v) current targets x y ↔ x = id ∧ y ∈ current := by
  cases k with
  | ret => exact absurd rfl hk
  | _ => simp [GraphEnv.InstEdge, GraphEnv.buildInst, Inst.id]

/-! ### The edges of the loan graph, kind by kind -/

/-- The instructions for which the loan graph has no case of its own. -/
lemma CfgEnv.instEdge_straightLine {i : Inst} (hi : i.straightLine = true)
    (current : List InstId) (targets : List LoopTargets) (x y : InstId) :
    F.InstEdge i current targets x y ↔ x = i.id ∧ y ∈ current := by
  have h : F.buildCfgInst i current targets = (current, []) := by
    cases i <;> first | rfl | simp [Inst.straightLine] at hi
  simp [CfgEnv.InstEdge, h]

lemma CfgEnv.instEdge_scopedBlock (id : InstId) (b : Block) (current : List InstId)
    (targets : List LoopTargets) (x y : InstId) :
    F.InstEdge (.scopedBlock id b) current targets x y ↔ x = id ∧ y ∈ current := by
  simp [CfgEnv.InstEdge, CfgEnv.buildCfgInst, Inst.id]

lemma CfgEnv.instEdge_unrecoverableFailure (id : InstId) (current : List InstId)
    (targets : List LoopTargets) (x y : InstId) :
    F.InstEdge (.unrecoverableFailure id) current targets x y ↔ x = id ∧ y ∈ current := by
  simp [CfgEnv.InstEdge, CfgEnv.buildCfgInst, Inst.id]

include hF

lemma CfgEnv.instEdge_ret (id : InstId) (k : ReturnKind) (v : Value) (current : List InstId)
    (targets : List LoopTargets) (x y : InstId) :
    ¬ F.InstEdge (.ret id k v) current targets x y := by
  simp [CfgEnv.InstEdge, CfgEnv.buildCfgInst, hF, CleanupPlans.none, CfgEnv.cleanupEntries]

lemma CfgEnv.instEdge_brk (id : InstId) (n : Nat) (current : List InstId)
    (targets : List LoopTargets) (x y : InstId) :
    F.InstEdge (.brk id n) current targets x y ↔
      x = id ∧ y ∈ (targets[n]?.map (·.breaks)).getD [] := by
  simp [CfgEnv.InstEdge, CfgEnv.buildCfgInst, hF, CleanupPlans.none, CfgEnv.cleanupEntries, Inst.id]

lemma CfgEnv.instEdge_cont (id : InstId) (n : Nat) (current : List InstId)
    (targets : List LoopTargets) (x y : InstId) :
    F.InstEdge (.cont id n) current targets x y ↔
      x = id ∧ y ∈ (targets[n]?.map (·.continues)).getD [] := by
  simp [CfgEnv.InstEdge, CfgEnv.buildCfgInst, hF, CleanupPlans.none, CfgEnv.cleanupEntries, Inst.id]

lemma CfgEnv.instEdge_taskScope (id : InstId) (b : Block) (current : List InstId)
    (targets : List LoopTargets) (x y : InstId) :
    F.InstEdge (.taskScope id b) current targets x y ↔
      F.Edge b.insts current targets x y ∨ x = id ∧ y ∈ entriesOf b.insts current := by
  simp [CfgEnv.InstEdge, CfgEnv.Edge, CfgEnv.buildCfgInst_taskScope, CfgEnv.buildCfg_eq hF, Inst.id]

lemma CfgEnv.instEdge_if (id : InstId) (v : Value) (a : Block) (current : List InstId)
    (targets : List LoopTargets) (x y : InstId) :
    F.InstEdge (.ifInst id v [a]) current targets x y ↔
      F.Edge a.insts current targets x y ∨
        x = id ∧ (y ∈ entriesOf a.insts current ∨ y ∈ current) := by
  simp [CfgEnv.InstEdge, CfgEnv.Edge, CfgEnv.buildCfgInst, CfgEnv.buildCfgBlocks,
    CfgEnv.buildCfg_eq hF, Inst.id]

lemma CfgEnv.instEdge_ifElse (id : InstId) (v : Value) (a b : Block)
    (current : List InstId) (targets : List LoopTargets) (x y : InstId) :
    F.InstEdge (.ifInst id v [a, b]) current targets x y ↔
      F.Edge a.insts current targets x y ∨ F.Edge b.insts current targets x y ∨
        x = id ∧ (y ∈ entriesOf a.insts current ∨ y ∈ entriesOf b.insts current) := by
  simp [CfgEnv.InstEdge, CfgEnv.Edge, CfgEnv.buildCfgInst, CfgEnv.buildCfgBlocks,
    CfgEnv.buildCfg_eq hF, Inst.id, or_assoc]

/-- The entries and edges of the arms of a `Switch`. -/
lemma CfgEnv.mem_buildCfgArms (arms : List (Int × Block)) (current : List InstId)
    (targets : List LoopTargets) (next : List InstId) (x y : InstId) :
    (y ∈ (F.buildCfgArms arms current targets next).1 ↔
      y ∈ next ∨ ∃ a ∈ arms, y ∈ entriesOf a.2.insts current) ∧
    ((x, y) ∈ (F.buildCfgArms arms current targets next).2 ↔
      ∃ a ∈ arms, F.Edge a.2.insts current targets x y) := by
  induction arms generalizing next with
  | nil => simp [CfgEnv.buildCfgArms]
  | cons a arms ih =>
    obtain ⟨k, b⟩ := a
    simp only [CfgEnv.buildCfgArms, CfgEnv.buildCfg_eq hF, CfgEnv.buildCfgInsts_fst,
      List.mem_append, List.exists_mem_cons_iff]
    rw [(ih _).1, (ih _).2, mem_appendInst, or_assoc]
    exact ⟨Iff.rfl, Iff.rfl⟩

lemma CfgEnv.instEdge_switch (id : InstId) (v : Value) (arms : List (Int × Block))
    (current : List InstId) (targets : List LoopTargets) (x y : InstId) :
    F.InstEdge (.switch id v arms) current targets x y ↔
      (∃ a ∈ arms, F.Edge a.2.insts current targets x y) ∨
        x = id ∧ ∃ a ∈ arms, y ∈ entriesOf a.2.insts current := by
  obtain ⟨h₁, h₂⟩ := CfgEnv.mem_buildCfgArms hF arms current targets [] x y
  simp only [CfgEnv.InstEdge, CfgEnv.buildCfgInst, h₁, h₂, Inst.id, List.not_mem_nil, false_or]

/-- The edges of a `While`; the condition is built like any other block. -/
lemma CfgEnv.instEdge_while (id : InstId) (b : Block) (hf : c.insts.head? = some f)
    (current : List InstId) (targets : List LoopTargets) (x y : InstId) :
    F.InstEdge (.whileLoop id c b) current targets x y ↔
      F.Edge b.insts [f.id] (⟨current, [f.id]⟩ :: targets) x y ∨
        F.Edge c.insts (appendInst (entriesOf b.insts [f.id]) current) targets x y ∨
        x = id ∧ y = f.id := by
  simp [CfgEnv.InstEdge, CfgEnv.Edge, CfgEnv.buildCfgInst, CfgEnv.buildCfg_eq hF, hf,
    entriesOf_of_head? hf, Inst.id, or_assoc]

/-- The edges of a `For`. -/
lemma CfgEnv.instEdge_for (id : InstId) (i p : Block) (b : Block) (hf : c.insts.head? = some f)
    (current : List InstId) (targets : List LoopTargets) (x y : InstId) :
    F.InstEdge (.forLoop id i c p b) current targets x y ↔
      F.Edge p.insts [f.id] targets x y ∨
        F.Edge b.insts (entriesOf p.insts [f.id])
          (⟨current, entriesOf p.insts [f.id]⟩ :: targets) x y ∨
        F.Edge c.insts (appendInst (entriesOf b.insts (entriesOf p.insts [f.id])) current)
          targets x y ∨
        F.Edge i.insts [f.id] targets x y ∨
        x = id ∧ y ∈ entriesOf i.insts [f.id] := by
  simp only [CfgEnv.InstEdge, CfgEnv.Edge, CfgEnv.buildCfgInst, CfgEnv.buildCfg_eq hF, hf,
    entriesOf_of_head? hf, CfgEnv.buildCfgInsts_fst, List.mem_append, Inst.id, Option.map_some,
    Option.toList_some]
  simp only [or_assoc]

/-- The edges of a `DoWhile`. -/
lemma CfgEnv.instEdge_doWhile (id : InstId) (b : Block) (hf : c.insts.head? = some f)
    (current : List InstId) (targets : List LoopTargets) (x y : InstId) :
    F.InstEdge (.doWhile id c b) current targets x y ↔
      F.Edge b.insts [f.id] (⟨current, [f.id]⟩ :: targets) x y ∨
        F.Edge c.insts (appendInst (entriesOf b.insts [f.id]) current) targets x y ∨
        x = id ∧ y ∈ entriesOf b.insts [f.id] := by
  cases hb : b.insts with
  | nil =>
    simp [CfgEnv.InstEdge, CfgEnv.Edge, CfgEnv.buildCfgInst, CfgEnv.buildCfg_eq hF, hf, hb,
      entriesOf_of_head? hf, CfgEnv.buildCfgInsts, Inst.id]
  | cons j l =>
    simp only [CfgEnv.InstEdge, CfgEnv.Edge, CfgEnv.buildCfgInst, CfgEnv.buildCfg_eq hF, hf, hb,
      List.head?_cons, entriesOf_of_head? hf, CfgEnv.buildCfgInsts_fst, List.mem_append,
      entriesOf_cons, Inst.id]
    rw [or_assoc, or_left_comm]

end Edges

/-! ## Edges start at instructions of the part they come from -/

/-- The condition of a verified loop has a first and a last instruction. -/
lemma Block.exists_of_verifiedCondition {c : Block} (h : c.verifiedCondition = true) :
    ∃ f z, c.insts.head? = some f ∧ c.insts.getLast? = some z ∧ z.yieldsValue = true := by
  unfold Block.verifiedCondition at h
  split at h
  · next z hz =>
    cases hc : c.insts with
    | nil => simp [hc] at hz
    | cons f l => exact ⟨f, z, rfl, by rw [← hc, hz], h⟩
  · exact absurd h (by simp)

lemma verifiedInsts_iff {l : List Inst} :
    verifiedInsts l = true ↔ ∀ i ∈ l, i.verified = true := by
  induction l with
  | nil => simp [verifiedInsts]
  | cons i l ih => simp [verifiedInsts, ih]

lemma Block.verified_iff {b : Block} : b.verified = true ↔ ∀ i ∈ b.insts, i.verified = true := by
  cases b with
  | mk id l => rw [Block.verified, verifiedInsts_iff, Block.insts_mk]

lemma verifiedBlocks_iff {l : List Block} :
    verifiedBlocks l = true ↔ ∀ b ∈ l, b.verified = true := by
  induction l with
  | nil => simp [verifiedBlocks]
  | cons b l ih => simp [verifiedBlocks, ih]

lemma verifiedArms_iff {l : List (Int × Block)} :
    verifiedArms l = true ↔ ∀ a ∈ l, a.2.verified = true := by
  induction l with
  | nil => simp [verifiedArms]
  | cons a l ih =>
    obtain ⟨k, b⟩ := a
    simp [verifiedArms, ih]

/-- The blocks of a verified instruction are verified. -/
lemma Inst.verified_blocks {i : Inst} (h : i.verified = true) {b : Block} (hb : b ∈ i.blocks) :
    b.verified = true := by
  cases i with
  | ifInst id c arms =>
    simp only [Inst.verified, Bool.and_eq_true] at h
    exact verifiedBlocks_iff.1 h.2 b hb
  | switch id v arms =>
    simp only [Inst.blocks, List.mem_map] at hb
    obtain ⟨a, ha, rfl⟩ := hb
    exact verifiedArms_iff.1 (by simpa [Inst.verified] using h) a ha
  | defer id d | scopedBlock id d | taskScope id d =>
    obtain rfl : b = d := by simpa [Inst.blocks] using hb
    simpa [Inst.verified] using h
  | whileLoop id c d | doWhile id c d =>
    simp only [Inst.verified, Bool.and_eq_true] at h
    simp only [Inst.blocks, List.mem_cons, List.not_mem_nil, or_false] at hb
    rcases hb with rfl | rfl
    · exact h.1.2
    · exact h.2
  | forLoop id i c p d =>
    simp only [Inst.verified, Bool.and_eq_true] at h
    simp only [Inst.blocks, List.mem_cons, List.not_mem_nil, or_false] at hb
    rcases hb with rfl | rfl | rfl | rfl
    · exact h.1.1.1.1
    · exact h.1.1.2
    · exact h.1.2
    · exact h.2
  | _ => simp [Inst.blocks] at hb

section Sources

/-! The argument is the same for both builders: `instEdge` and `edge` are their edge relations of
instructions and of lists. -/

variable {instEdge : Inst → List InstId → List LoopTargets → InstId → InstId → Prop}
  {edge : List Inst → List InstId → List LoopTargets → InstId → InstId → Prop}
  (hnil : ∀ {tail targets x y}, ¬ edge [] tail targets x y)
  (hcons : ∀ {i l tail targets x y}, edge (i :: l) tail targets x y →
    edge l tail targets x y ∨ instEdge i (entriesOf l tail) targets x y)
  (hinst : ∀ {i : Inst} {current targets x y}, i.verified = true →
    instEdge i current targets x y → x = i.id ∨
      ∃ b ∈ i.blocks, (∃ j ∈ b.insts, x = j.id) ∨ ∃ tail targets', edge b.insts tail targets' x y)

include hnil hcons in
/-- An edge of a list is an edge of one of its instructions. -/
lemma exists_instEdge_of_edge {l : List Inst} {tail : List InstId} {targets : List LoopTargets}
    {x y : InstId} (h : edge l tail targets x y) :
    ∃ i ∈ l, ∃ current, instEdge i current targets x y := by
  induction l with
  | nil => exact absurd h hnil
  | cons i l ih =>
    rcases hcons h with h | h
    · obtain ⟨j, hj, current, h⟩ := ih h
      exact ⟨j, List.mem_cons_of_mem _ hj, current, h⟩
    · exact ⟨i, List.mem_cons_self, _, h⟩

include hnil hcons hinst in
/-- The edges of a verified block start at its instructions. -/
lemma mem_ids_of_edge (b : Block) : b.verified = true → ∀ (tail : List InstId)
    (targets : List LoopTargets) (x y : InstId), edge b.insts tail targets x y → x ∈ b.ids := by
  induction b using Block.induction with
  | h b ih =>
    intro hv tail targets x y h
    obtain ⟨i, hi, current, h⟩ := exists_instEdge_of_edge hnil hcons h
    have hvi := Block.verified_iff.1 hv i hi
    rw [Block.ids_eq, mem_instsIds]
    refine ⟨i, hi, ?_⟩
    rcases hinst hvi h with rfl | ⟨c, hc, ⟨j, hj, rfl⟩ | ⟨tail', targets', h⟩⟩
    · exact .inl rfl
    · refine .inr (Inst.mem_nestedIds.2 ⟨c, hc, ?_⟩)
      rw [Block.ids_eq, mem_instsIds]
      exact ⟨j, hj, .inl rfl⟩
    · exact .inr (Inst.mem_nestedIds.2
        ⟨c, hc, ih i hi c hc (Inst.verified_blocks hvi hc) _ _ _ _ h⟩)

include hnil hcons hinst in
/-- The edges of a verified instruction start at it or at instructions it carries. -/
lemma mem_ids_of_instEdge {i : Inst} (hv : i.verified = true) {current : List InstId}
    {targets : List LoopTargets} {x y : InstId} (h : instEdge i current targets x y) :
    x = i.id ∨ x ∈ i.nestedIds := by
  rcases hinst hv h with rfl | ⟨c, hc, ⟨j, hj, rfl⟩ | ⟨tail, targets', h⟩⟩
  · exact .inl rfl
  · refine .inr (Inst.mem_nestedIds.2 ⟨c, hc, ?_⟩)
    rw [Block.ids_eq, mem_instsIds]
    exact ⟨j, hj, .inl rfl⟩
  · exact .inr (Inst.mem_nestedIds.2
      ⟨c, hc, mem_ids_of_edge hnil hcons hinst c (Inst.verified_blocks hv hc) _ _ _ _ h⟩)

end Sources

/-- The edges of an instruction of the callable ownership graph start at the instruction, at the
last instruction of a condition it carries, or come from a block it carries. -/
lemma GraphEnv.source_of_instEdge {E : GraphEnv} (hE : E.tables.Empty) {i : Inst}
    {current : List InstId} {targets : List LoopTargets} {x y : InstId} (hv : i.verified = true)
    (h : E.InstEdge i current targets x y) :
    x = i.id ∨ ∃ b ∈ i.blocks, (∃ j ∈ b.insts, x = j.id) ∨
      ∃ tail targets', E.Edge b.insts tail targets' x y := by
  cases i with
  | defer id d => exact .inl ((hasEdge_plainEdges _ _ _ _).1 h).1
  | unrecoverableFailure id =>
    exact .inl ((GraphEnv.instEdge_unrecoverableFailure _ _ _ _ _).1 h).1
  | ret id k v =>
    by_cases hk : k = .ret
    · subst hk
      exact absurd h (GraphEnv.instEdge_ret hE _ _ _ _ _ _)
    · exact .inl ((GraphEnv.instEdge_coroutineReturn _ hk _ _ _ _ _).1 h).1
  | brk id n => exact .inl ((GraphEnv.instEdge_brk hE _ _ _ _ _ _).1 h).1
  | cont id n => exact .inl ((GraphEnv.instEdge_cont hE _ _ _ _ _ _).1 h).1
  | taskScope id b => exact .inl ((GraphEnv.instEdge_taskScope _ _ _ _ _ _).1 h).1
  | ifInst id v arms =>
    rcases arms with _ | ⟨a, _ | ⟨b, l⟩⟩
    · simp [Inst.verified] at hv
    · rcases (GraphEnv.instEdge_if hE _ _ _ _ _ _ _).1 h with h | ⟨rfl, -⟩
      · exact .inr ⟨a, by simp [Inst.blocks], .inr ⟨_, _, h⟩⟩
      · exact .inl rfl
    · rcases (GraphEnv.instEdge_ifElse hE _ _ _ _ _ _ _ _ _).1 h with h | h | ⟨rfl, -⟩
      · exact .inr ⟨a, by simp [Inst.blocks], .inr ⟨_, _, h⟩⟩
      · exact .inr ⟨b, by simp [Inst.blocks], .inr ⟨_, _, h⟩⟩
      · exact .inl rfl
  | switch id v arms =>
    rcases (GraphEnv.instEdge_switch hE _ _ _ _ _ _ _).1 h with ⟨a, ha, h⟩ | ⟨rfl, -⟩
    · exact .inr ⟨a.2, List.mem_map.2 ⟨a, ha, rfl⟩, .inr ⟨_, _, h⟩⟩
    · exact .inl rfl
  | scopedBlock id b =>
    rcases (GraphEnv.instEdge_scopedBlock hE _ _ _ _ _ _).1 h with h | ⟨rfl, -⟩
    · exact .inr ⟨b, by simp [Inst.blocks], .inr ⟨_, _, h⟩⟩
    · exact .inl rfl
  | whileLoop id c b =>
    simp only [Inst.verified, Bool.and_eq_true] at hv
    obtain ⟨f, z, hf, hz, -⟩ := Block.exists_of_verifiedCondition hv.1.1
    rcases (GraphEnv.instEdge_while hE _ b hf hz _ _ _ _).1 h with h | (h | ⟨rfl, -⟩) | ⟨rfl, -⟩
    · exact .inr ⟨b, by simp [Inst.blocks], .inr ⟨_, _, h⟩⟩
    · exact .inr ⟨c, by simp [Inst.blocks], .inr ⟨_, _, h⟩⟩
    · exact .inr ⟨c, by simp [Inst.blocks], .inl ⟨z, List.mem_of_getLast? hz, rfl⟩⟩
    · exact .inl rfl
  | forLoop id i c p b =>
    simp only [Inst.verified, Bool.and_eq_true] at hv
    obtain ⟨f, z, hf, hz, -⟩ := Block.exists_of_verifiedCondition hv.1.1.1.2
    rcases (GraphEnv.instEdge_for hE _ i p b hf hz _ _ _ _).1 h with
      h | h | (h | ⟨rfl, -⟩) | h | ⟨rfl, -⟩
    · exact .inr ⟨p, by simp [Inst.blocks], .inr ⟨_, _, h⟩⟩
    · exact .inr ⟨b, by simp [Inst.blocks], .inr ⟨_, _, h⟩⟩
    · exact .inr ⟨c, by simp [Inst.blocks], .inr ⟨_, _, h⟩⟩
    · exact .inr ⟨c, by simp [Inst.blocks], .inl ⟨z, List.mem_of_getLast? hz, rfl⟩⟩
    · exact .inr ⟨i, by simp [Inst.blocks], .inr ⟨_, _, h⟩⟩
    · exact .inl rfl
  | doWhile id c b =>
    simp only [Inst.verified, Bool.and_eq_true] at hv
    obtain ⟨f, z, hf, hz, -⟩ := Block.exists_of_verifiedCondition hv.1.1
    rcases (GraphEnv.instEdge_doWhile hE _ b hf hz _ _ _ _).1 h with h | (h | ⟨rfl, -⟩) | ⟨rfl, -⟩
    · exact .inr ⟨b, by simp [Inst.blocks], .inr ⟨_, _, h⟩⟩
    · exact .inr ⟨c, by simp [Inst.blocks], .inr ⟨_, _, h⟩⟩
    · exact .inr ⟨c, by simp [Inst.blocks], .inl ⟨z, List.mem_of_getLast? hz, rfl⟩⟩
    · exact .inl rfl
  | _ => exact .inl ((GraphEnv.instEdge_straightLine rfl _ _ _ _).1 h).1

/-- The edges of an instruction of the loan graph start at the instruction or come from a block it
carries. -/
lemma CfgEnv.source_of_instEdge {F : CfgEnv} (hF : F.plans = .none) {i : Inst}
    {current : List InstId} {targets : List LoopTargets} {x y : InstId} (hv : i.verified = true)
    (h : F.InstEdge i current targets x y) :
    x = i.id ∨ ∃ b ∈ i.blocks, (∃ j ∈ b.insts, x = j.id) ∨
      ∃ tail targets', F.Edge b.insts tail targets' x y := by
  cases i with
  | defer id d =>
    rcases h with h | ⟨rfl, -⟩
    · simp [CfgEnv.buildCfgInst] at h
    · exact .inl rfl
  | unrecoverableFailure id => exact .inl ((CfgEnv.instEdge_unrecoverableFailure _ _ _ _ _).1 h).1
  | ret id k v => exact absurd h (CfgEnv.instEdge_ret hF _ _ _ _ _ _ _)
  | brk id n => exact .inl ((CfgEnv.instEdge_brk hF _ _ _ _ _ _).1 h).1
  | cont id n => exact .inl ((CfgEnv.instEdge_cont hF _ _ _ _ _ _).1 h).1
  | scopedBlock id b => exact .inl ((CfgEnv.instEdge_scopedBlock _ _ _ _ _ _).1 h).1
  | taskScope id b =>
    rcases (CfgEnv.instEdge_taskScope hF _ _ _ _ _ _).1 h with h | ⟨rfl, -⟩
    · exact .inr ⟨b, by simp [Inst.blocks], .inr ⟨_, _, h⟩⟩
    · exact .inl rfl
  | ifInst id v arms =>
    rcases arms with _ | ⟨a, _ | ⟨b, _ | ⟨d, l⟩⟩⟩
    · simp [Inst.verified] at hv
    · rcases (CfgEnv.instEdge_if hF _ _ _ _ _ _ _).1 h with h | ⟨rfl, -⟩
      · exact .inr ⟨a, by simp [Inst.blocks], .inr ⟨_, _, h⟩⟩
      · exact .inl rfl
    · rcases (CfgEnv.instEdge_ifElse hF _ _ _ _ _ _ _ _).1 h with h | h | ⟨rfl, -⟩
      · exact .inr ⟨a, by simp [Inst.blocks], .inr ⟨_, _, h⟩⟩
      · exact .inr ⟨b, by simp [Inst.blocks], .inr ⟨_, _, h⟩⟩
      · exact .inl rfl
    · simp [Inst.verified] at hv
  | switch id v arms =>
    rcases (CfgEnv.instEdge_switch hF _ _ _ _ _ _ _).1 h with ⟨a, ha, h⟩ | ⟨rfl, -⟩
    · exact .inr ⟨a.2, List.mem_map.2 ⟨a, ha, rfl⟩, .inr ⟨_, _, h⟩⟩
    · exact .inl rfl
  | whileLoop id c b =>
    simp only [Inst.verified, Bool.and_eq_true] at hv
    obtain ⟨f, z, hf, -, -⟩ := Block.exists_of_verifiedCondition hv.1.1
    rcases (CfgEnv.instEdge_while hF _ b hf _ _ _ _).1 h with h | h | ⟨rfl, -⟩
    · exact .inr ⟨b, by simp [Inst.blocks], .inr ⟨_, _, h⟩⟩
    · exact .inr ⟨c, by simp [Inst.blocks], .inr ⟨_, _, h⟩⟩
    · exact .inl rfl
  | forLoop id i c p b =>
    simp only [Inst.verified, Bool.and_eq_true] at hv
    obtain ⟨f, z, hf, -, -⟩ := Block.exists_of_verifiedCondition hv.1.1.1.2
    rcases (CfgEnv.instEdge_for hF _ i p b hf _ _ _ _).1 h with h | h | h | h | ⟨rfl, -⟩
    · exact .inr ⟨p, by simp [Inst.blocks], .inr ⟨_, _, h⟩⟩
    · exact .inr ⟨b, by simp [Inst.blocks], .inr ⟨_, _, h⟩⟩
    · exact .inr ⟨c, by simp [Inst.blocks], .inr ⟨_, _, h⟩⟩
    · exact .inr ⟨i, by simp [Inst.blocks], .inr ⟨_, _, h⟩⟩
    · exact .inl rfl
  | doWhile id c b =>
    simp only [Inst.verified, Bool.and_eq_true] at hv
    obtain ⟨f, z, hf, -, -⟩ := Block.exists_of_verifiedCondition hv.1.1
    rcases (CfgEnv.instEdge_doWhile hF _ b hf _ _ _ _).1 h with h | h | ⟨rfl, -⟩
    · exact .inr ⟨b, by simp [Inst.blocks], .inr ⟨_, _, h⟩⟩
    · exact .inr ⟨c, by simp [Inst.blocks], .inr ⟨_, _, h⟩⟩
    · exact .inl rfl
  | _ => exact .inl ((CfgEnv.instEdge_straightLine rfl _ _ _ _).1 h).1

end Chtholly
