import Chtholly.Flow.Edges
import Mathlib.Logic.Relation

set_option autoImplicit false

/-!
# The two control-flow builders compared

For a body without deferred blocks, the graph of the callable ownership analysis
(`Chtholly.buildFunctionGraph`, conditions forgotten) and the graph of the loan analysis
(`Chtholly.loanCfg`) are built from the same syntax by two walks with different lists of cases. They
differ in four places: only the first descends into scoped blocks, only the second into task scopes
and takes the coroutine returns for returns, and the first lets control leave a loop condition from
its last instruction, also when that instruction carries blocks.

## Main definitions

* `Chtholly.Block.cfgAgrees` — none of the four places occurs.
* `Chtholly.SameFlow` — equal successor relations and equal sets of reachable instructions.

## Main results

* `Chtholly.sameFlow_iff_cfgAgrees` — the two graphs agree exactly on these bodies.

## Design

As no instruction occurs twice and the edges of every part start at instructions of the part, the
graphs agree iff they agree on every part (`same_or_iff`), and the comparison splits along the
syntax.
-/

namespace Chtholly

/-! ## The places where the builders differ -/

mutual

/-- The two builders agree on an instruction that is (`followed`) or is not followed by another:
no scoped block or task scope has instructions, a coroutine return stands where nothing follows, and
the condition of every loop ends in a straight-line instruction. -/
def Inst.cfgAgrees : Inst → Bool → Bool
  | .ret _ .ret _, _ => true
  | .ret .., followed => !followed
  | .ifInst _ _ arms, followed => cfgAgreesBlocks arms followed
  | .switch _ _ arms, followed => cfgAgreesArms arms followed
  | .scopedBlock _ b, _ | .taskScope _ b, _ => b.insts.isEmpty
  | .whileLoop _ c b, _ | .doWhile _ c b, _ => c.cfgAgreesCondition && b.cfgAgrees true
  | .forLoop _ i c p b, _ =>
    i.cfgAgrees true && c.cfgAgreesCondition && p.cfgAgrees true && b.cfgAgrees true
  | _, _ => true

/-- The two builders agree on a block. -/
def Block.cfgAgrees : Block → Bool → Bool
  | .mk _ l, followed => cfgAgreesInsts l followed

/-- The two builders agree on a condition block. -/
def Block.cfgAgreesCondition : Block → Bool
  | .mk _ l => cfgAgreesConditionInsts l

/-- The two builders agree on a list of instructions. -/
def cfgAgreesInsts : List Inst → Bool → Bool
  | [], _ => true
  | i :: l, followed => i.cfgAgrees (followed || !l.isEmpty) && cfgAgreesInsts l followed

/-- The two builders agree on the instructions of a condition block. -/
def cfgAgreesConditionInsts : List Inst → Bool
  | [] => true
  | i :: l =>
    if l.isEmpty then i.straightLine else i.cfgAgrees true && cfgAgreesConditionInsts l

/-- The two builders agree on the arms of an `If`. -/
def cfgAgreesBlocks : List Block → Bool → Bool
  | [], _ => true
  | b :: l, followed => b.cfgAgrees followed && cfgAgreesBlocks l followed

/-- The two builders agree on the arms of a `Switch`. -/
def cfgAgreesArms : List (Int × Block) → Bool → Bool
  | [], _ => true
  | (_, b) :: l, followed => b.cfgAgrees followed && cfgAgreesArms l followed

end

lemma cfgAgreesConditionInsts_cons_cons (i j : Inst) (l : List Inst) :
    cfgAgreesConditionInsts (i :: j :: l) =
      (i.cfgAgrees true && cfgAgreesConditionInsts (j :: l)) := rfl
/-! ## The comparison -/

/-- Two pairs of relations whose first arguments lie in disjoint sets agree together iff they agree
one by one. -/
lemma same_or_iff {P P' Q Q' : InstId → InstId → Prop} (S : InstId → Prop)
    (hP : ∀ x y, P x y → S x) (hQ : ∀ x y, Q x y → S x)
    (hP' : ∀ x y, P' x y → ¬ S x) (hQ' : ∀ x y, Q' x y → ¬ S x) :
    (∀ x y, P x y ∨ P' x y ↔ Q x y ∨ Q' x y) ↔
      (∀ x y, P x y ↔ Q x y) ∧ ∀ x y, P' x y ↔ Q' x y := by
  constructor
  · intro h
    constructor
    · intro x y
      constructor
      · intro hp
        rcases (h x y).1 (.inl hp) with hq | hq
        · exact hq
        · exact absurd (hP x y hp) (hQ' x y hq)
      · intro hq
        rcases (h x y).2 (.inl hq) with hp | hp
        · exact hp
        · exact absurd (hQ x y hq) (hP' x y hp)
    · intro x y
      constructor
      · intro hp
        rcases (h x y).1 (.inr hp) with hq | hq
        · exact absurd (hQ x y hq) (hP' x y hp)
        · exact hq
      · intro hq
        rcases (h x y).2 (.inr hq) with hp | hp
        · exact absurd (hP x y hp) (hQ' x y hq)
        · exact hp
  · rintro ⟨h₁, h₂⟩ x y
    rw [h₁, h₂]

section Comparison

variable {E : GraphEnv} (hE : E.tables.Empty) {F : CfgEnv} (hF : F.plans = .none)

/-- The builders give an instruction the same edges. -/
def SameInst (E : GraphEnv) (F : CfgEnv) (i : Inst) (current : List InstId)
    (targets : List LoopTargets) : Prop :=
  ∀ x y, F.InstEdge i current targets x y ↔ E.InstEdge i current targets x y

/-- The builders give a list of instructions the same edges. -/
def SameInsts (E : GraphEnv) (F : CfgEnv) (l : List Inst) (tail : List InstId)
    (targets : List LoopTargets) : Prop :=
  ∀ x y, F.Edge l tail targets x y ↔ E.Edge l tail targets x y

/-- The builders give the condition of a loop the same edges: the loan graph builds it before the
body and the exit of the loop (`tail`), the callable ownership graph before nothing, with edges from
its last instruction `z`. -/
def SameCondition (E : GraphEnv) (F : CfgEnv) (l : List Inst) (z : Inst) (tail : List InstId)
    (targets : List LoopTargets) : Prop :=
  ∀ x y, F.Edge l tail targets x y ↔ E.Edge l [] targets x y ∨ x = z.id ∧ y ∈ tail

/-- None of the instructions stands in a block that `i` carries. -/
def FreshFor (i : Inst) (l : List InstId) : Prop := ∀ y ∈ l, y ∉ i.nestedIds

/-- The claim for an instruction: the builders give it the same edges iff it `cfgAgrees`. -/
def Compared (E : GraphEnv) (F : CfgEnv) (i : Inst) : Prop :=
  ∀ (current : List InstId) (targets : List LoopTargets), FreshFor i current →
    (SameInst E F i current targets ↔ i.cfgAgrees (!current.isEmpty) = true)

variable {b : Block} {tail : List InstId} {targets : List LoopTargets} {x y : InstId}

include hE in
/-- Sources of the callable ownership graph. -/
lemma GraphEnv.mem_ids_of_edge (hv : b.verified = true) (h : E.Edge b.insts tail targets x y) :
    x ∈ b.ids :=
  Chtholly.mem_ids_of_edge (GraphEnv.edge_nil _ _ _ _) (GraphEnv.edge_cons _ _ _ _ _ _).1
    (fun hv h => GraphEnv.source_of_instEdge hE hv h) b hv _ _ _ _ h

include hF in
/-- Sources of the loan graph. -/
lemma CfgEnv.mem_ids_of_edge (hv : b.verified = true) (h : F.Edge b.insts tail targets x y) :
    x ∈ b.ids :=
  Chtholly.mem_ids_of_edge (CfgEnv.edge_nil _ _ _ _) (CfgEnv.edge_cons _ _ _ _ _ _).1
    (fun hv h => CfgEnv.source_of_instEdge hF hv h) b hv _ _ _ _ h

variable {i : Inst} {current : List InstId}

include hE in
/-- Sources of the callable ownership graph, for an instruction. -/
lemma GraphEnv.mem_ids_of_instEdge (hv : i.verified = true) (h : E.InstEdge i current targets x y) :
    x ∈ i.id :: i.nestedIds :=
  List.mem_cons.2 (Chtholly.mem_ids_of_instEdge (GraphEnv.edge_nil _ _ _ _)
    (GraphEnv.edge_cons _ _ _ _ _ _).1 (fun hv h => GraphEnv.source_of_instEdge hE hv h) hv h)

include hF in
/-- Sources of the loan graph, for an instruction. -/
lemma CfgEnv.mem_ids_of_instEdge (hv : i.verified = true) (h : F.InstEdge i current targets x y) :
    x ∈ i.id :: i.nestedIds :=
  List.mem_cons.2 (Chtholly.mem_ids_of_instEdge (CfgEnv.edge_nil _ _ _ _)
    (CfgEnv.edge_cons _ _ _ _ _ _).1 (fun hv h => CfgEnv.source_of_instEdge hF hv h) hv h)

/-- The first instruction of what follows does not stand in a block of `i`. -/
lemma freshFor_entriesOf {l : List Inst} (hn : (instsIds (i :: l)).Nodup) (ht : FreshFor i tail) :
    FreshFor i (entriesOf l tail) := by
  cases l with
  | nil => exact ht
  | cons j l =>
    intro y hy hmem
    obtain rfl : y = j.id := by simpa using hy
    have hj : j.id ∈ instsIds (j :: l) := by simp [instsIds]
    simp only [instsIds] at hn
    exact (List.nodup_append.1 hn).2.2 _ (List.mem_cons_of_mem _ hmem) _ (by simp) rfl

include hE hF in
/-- The comparison of a list, from the comparisons of its instructions.

**Proof sketch.** Induction on the list. The edges of the first instruction start at it or inside
it, those of the rest inside the rest, and no instruction occurs twice. -/
lemma sameInsts_iff {l : List Inst} (hl : ∀ i ∈ l, Compared E F i)
    (hv : ∀ i ∈ l, i.verified = true) (hn : (instsIds l).Nodup) (tail : List InstId)
    (targets : List LoopTargets) (ht : ∀ i ∈ l, FreshFor i tail) :
    SameInsts E F l tail targets ↔ cfgAgreesInsts l (!tail.isEmpty) = true := by
  induction l with
  | nil =>
    refine ⟨fun _ => by simp [cfgAgreesInsts], fun _ x y => ?_⟩
    exact iff_of_false (CfgEnv.edge_nil _ _ _ _) (GraphEnv.edge_nil _ _ _ _)
  | cons i l ih =>
    have hn' := hn
    simp only [instsIds] at hn'
    obtain ⟨-, hnl, hdisj⟩ := List.nodup_append.1 hn'
    have hvl : (Block.mk 0 l).verified = true :=
      Block.verified_iff.2 fun j hj => hv j (List.mem_cons_of_mem _ hj)
    have hvi : i.verified = true := hv i List.mem_cons_self
    have hih := ih (fun j hj => hl j (List.mem_cons_of_mem _ hj))
      (fun j hj => hv j (List.mem_cons_of_mem _ hj)) hnl
      (fun j hj => ht j (List.mem_cons_of_mem _ hj))
    have hi := hl i List.mem_cons_self (entriesOf l tail) targets
      (freshFor_entriesOf hn (ht i List.mem_cons_self))
    have hempty : (!(entriesOf l tail).isEmpty) = (!tail.isEmpty || !l.isEmpty) := by
      cases l <;> simp
    have hsplit : SameInsts E F (i :: l) tail targets ↔
        SameInsts E F l tail targets ∧ SameInst E F i (entriesOf l tail) targets := by
      unfold SameInsts SameInst
      rw [← same_or_iff (fun x => x ∈ instsIds l)]
      · simp only [GraphEnv.edge_cons, CfgEnv.edge_cons]
      · intro x y h
        exact CfgEnv.mem_ids_of_edge hF (b := .mk 0 l) hvl h
      · intro x y h
        exact GraphEnv.mem_ids_of_edge hE (b := .mk 0 l) hvl h
      · intro x y h hx
        exact hdisj x (CfgEnv.mem_ids_of_instEdge hF hvi h) x hx rfl
      · intro x y h hx
        exact hdisj x (GraphEnv.mem_ids_of_instEdge hE hvi h) x hx rfl
    rw [hsplit, hih, hi, hempty, cfgAgreesInsts, Bool.and_eq_true, and_comm]

include hE hF in
/-- A last instruction of a condition that carries blocks is built differently: its arms are not
empty, so the loan graph enters them and not the tail, while the callable ownership graph has edges
from the instruction to the tail; a scoped block is entered by the callable ownership graph only. -/
lemma not_sameCondition_singleton (hi : i.yieldsValue = true) (hs : i.straightLine = false)
    (hv : i.verified = true) (hn : (i.id :: i.nestedIds).Nodup) (hne : tail ≠ [])
    (targets : List LoopTargets) (ht : FreshFor i tail) :
    ¬ SameCondition E F [i] i tail targets := by
  intro h
  have hself : i.id ∉ i.nestedIds := (List.nodup_cons.1 hn).1
  have hFi : ∀ x y, F.Edge [i] tail targets x y ↔ F.InstEdge i tail targets x y := by
    intro x y
    rw [CfgEnv.edge_cons, entriesOf_nil, or_iff_right (CfgEnv.edge_nil _ _ _ _)]
  have hEi : ∀ x y, E.Edge [i] [] targets x y ↔ E.InstEdge i [] targets x y := by
    intro x y
    rw [GraphEnv.edge_cons, entriesOf_nil, or_iff_right (GraphEnv.edge_nil _ _ _ _)]
  obtain ⟨w, hw⟩ := List.exists_mem_of_ne_nil tail hne
  -- an edge to the first instruction of a carried block is no edge to the tail
  have harm : ∀ b ∈ i.blocks, b.insts ≠ [] → w ∉ entriesOf b.insts tail := by
    intro b hb hbne hmem
    rcases mem_entriesOf hmem with hm | ⟨hm, -⟩
    · exact ht w hw (Inst.mem_nestedIds.2 ⟨b, hb, by rwa [Block.ids_eq]⟩)
    · exact hbne hm
  -- an edge of a carried block does not start at the instruction itself
  have hblock : ∀ b ∈ i.blocks, ∀ y, ¬ F.Edge b.insts tail targets i.id y := fun b hb y hedge =>
    hself (Inst.mem_nestedIds.2
      ⟨b, hb, CfgEnv.mem_ids_of_edge hF (Inst.verified_blocks hv hb) hedge⟩)
  have htail : F.InstEdge i tail targets i.id w :=
    (hFi _ _).1 ((h _ _).2 (.inr ⟨rfl, hw⟩))
  cases i with
  | ifInst id v arms =>
    rcases arms with _ | ⟨a, _ | ⟨b, _ | ⟨d, l⟩⟩⟩
    · simp [Inst.yieldsValue, Inst.straightLine] at hi
    · simp [Inst.yieldsValue, Inst.straightLine] at hi
    · simp only [Inst.yieldsValue, Bool.and_eq_true, Bool.not_eq_true', List.isEmpty_eq_false_iff]
        at hi
      rcases (CfgEnv.instEdge_ifElse hF _ _ _ _ _ _ _ _).1 htail with he | he | ⟨-, he | he⟩
      · exact hblock a (by simp [Inst.blocks]) w he
      · exact hblock b (by simp [Inst.blocks]) w he
      · exact harm a (by simp [Inst.blocks]) hi.1 he
      · exact harm b (by simp [Inst.blocks]) hi.2 he
    · simp [Inst.yieldsValue, Inst.straightLine] at hi
  | switch id v arms =>
    simp only [Inst.yieldsValue, List.all_eq_true, Bool.not_eq_true',
      List.isEmpty_eq_false_iff] at hi
    rcases (CfgEnv.instEdge_switch hF _ _ _ _ _ _ _).1 htail with ⟨a, ha, he⟩ | ⟨-, a, ha, he⟩
    · exact hblock a.2 (List.mem_map.2 ⟨a, ha, rfl⟩) w he
    · exact harm a.2 (List.mem_map.2 ⟨a, ha, rfl⟩) (hi a ha) he
  | scopedBlock id b =>
    simp only [Inst.yieldsValue, Bool.not_eq_true', List.isEmpty_eq_false_iff] at hi
    obtain ⟨j, l, hj⟩ := List.exists_cons_of_ne_nil hi
    have hedge : E.InstEdge (.scopedBlock id b) [] targets id j.id :=
      (GraphEnv.instEdge_scopedBlock hE _ _ _ _ _ _).2 (.inr ⟨rfl, by rw [hj]; simp⟩)
    have hmem := ((CfgEnv.instEdge_scopedBlock _ _ _ _ _ _).1
      ((hFi _ _).1 ((h _ _).2 (.inl ((hEi _ _).2 hedge))))).2
    refine ht _ hmem (Inst.mem_nestedIds.2 ⟨b, by simp [Inst.blocks], ?_⟩)
    rw [Block.ids_eq, hj]
    simp [instsIds]
  | _ => simp_all [Inst.yieldsValue]

include hE hF in
/-- The comparison of a condition, from the comparisons of its instructions. -/
lemma sameCondition_iff {l : List Inst} {z : Inst} (hz : l.getLast? = some z)
    (hy : z.yieldsValue = true) (hl : ∀ i ∈ l, Compared E F i) (hv : ∀ i ∈ l, i.verified = true)
    (hn : (instsIds l).Nodup) (hne : tail ≠ []) (targets : List LoopTargets)
    (ht : ∀ i ∈ l, FreshFor i tail) :
    SameCondition E F l z tail targets ↔ cfgAgreesConditionInsts l = true := by
  induction l with
  | nil => simp at hz
  | cons i l ih =>
    have hn' := hn
    simp only [instsIds] at hn'
    obtain ⟨hni, hnl, hdisj⟩ := List.nodup_append.1 hn'
    have hvi : i.verified = true := hv i List.mem_cons_self
    cases l with
    | nil =>
      obtain rfl : i = z := by simpa using hz
      rw [cfgAgreesConditionInsts, List.isEmpty_nil, if_pos rfl]
      cases hs : i.straightLine with
      | false =>
        exact iff_of_false
          (not_sameCondition_singleton hE hF hy hs hvi hni hne targets (ht i List.mem_cons_self))
          (by simp)
      | true =>
        refine iff_of_true (fun x y => ?_) rfl
        rw [CfgEnv.edge_cons, GraphEnv.edge_cons, or_iff_right (CfgEnv.edge_nil _ _ _ _),
          or_iff_right (GraphEnv.edge_nil _ _ _ _), CfgEnv.instEdge_straightLine hs,
          GraphEnv.instEdge_straightLine hs]
        simp
    | cons j l =>
      have hvl : (Block.mk 0 (j :: l)).verified = true :=
        Block.verified_iff.2 fun k hk => hv k (List.mem_cons_of_mem _ hk)
      have hz' : (j :: l).getLast? = some z := by rwa [List.getLast?_cons_cons] at hz
      have hih := ih hz' (fun k hk => hl k (List.mem_cons_of_mem _ hk))
        (fun k hk => hv k (List.mem_cons_of_mem _ hk)) hnl
        (fun k hk => ht k (List.mem_cons_of_mem _ hk))
      have hi := hl i List.mem_cons_self [j.id] targets
        (freshFor_entriesOf hn (fun _ h => absurd h List.not_mem_nil))
      have hsplit : SameCondition E F (i :: j :: l) z tail targets ↔
          SameCondition E F (j :: l) z tail targets ∧ SameInst E F i [j.id] targets := by
        unfold SameCondition SameInst
        rw [← same_or_iff (fun x => x ∈ instsIds (j :: l))]
        · refine forall_congr' fun x => forall_congr' fun y => ?_
          rw [CfgEnv.edge_cons, GraphEnv.edge_cons, entriesOf_cons, entriesOf_cons, or_right_comm]
        · intro x y h
          exact CfgEnv.mem_ids_of_edge hF (b := .mk 0 (j :: l)) hvl h
        · rintro x y (h | ⟨rfl, -⟩)
          · exact GraphEnv.mem_ids_of_edge hE (b := .mk 0 (j :: l)) hvl h
          · exact mem_instsIds.2 ⟨z, List.mem_of_getLast? hz', .inl rfl⟩
        · intro x y h hx
          exact hdisj x (CfgEnv.mem_ids_of_instEdge hF hvi h) x hx rfl
        · intro x y h hx
          exact hdisj x (GraphEnv.mem_ids_of_instEdge hE hvi h) x hx rfl
      rw [hsplit, hih, hi, cfgAgreesConditionInsts_cons_cons, Bool.and_eq_true, and_comm]
      simp

/-- The claim for a block, as a block and as the condition of a loop. -/
structure ComparedBlock (E : GraphEnv) (F : CfgEnv) (b : Block) : Prop where
  block : ∀ (tail : List InstId) (targets : List LoopTargets), (∀ i ∈ b.insts, FreshFor i tail) →
    (SameInsts E F b.insts tail targets ↔ b.cfgAgrees (!tail.isEmpty) = true)
  condition : ∀ (z : Inst), b.insts.getLast? = some z → z.yieldsValue = true →
    ∀ (tail : List InstId) (targets : List LoopTargets), tail ≠ [] →
    (∀ i ∈ b.insts, FreshFor i tail) →
    (SameCondition E F b.insts z tail targets ↔ b.cfgAgreesCondition = true)

include hE hF in
/-- The claim for a block, from the claims for its instructions. -/
lemma comparedBlock_of_insts (hv : b.verified = true) (hn : b.ids.Nodup)
    (h : ∀ i ∈ b.insts, Compared E F i) : ComparedBlock E F b := by
  cases b with
  | mk id l =>
    have hv' := Block.verified_iff.1 hv
    simp only [Block.ids] at hn
    constructor
    · intro tail targets ht
      rw [Block.cfgAgrees]
      exact sameInsts_iff hE hF h hv' hn tail targets ht
    · intro z hz hy tail targets hne ht
      rw [Block.cfgAgreesCondition]
      exact sameCondition_iff hE hF hz hy h hv' hn hne targets ht

variable {l : List InstId}

/-- What stands outside a block stands outside the blocks of its instructions. -/
lemma freshFor_of_forall_not_mem (h : ∀ y ∈ l, y ∉ b.ids) : ∀ i ∈ b.insts, FreshFor i l := by
  intro i hi y hy hmem
  refine h y hy ?_
  rw [Block.ids_eq]
  exact mem_instsIds.2 ⟨i, hi, .inr hmem⟩

/-- What stands outside the blocks of an instruction stands outside each of them. -/
lemma FreshFor.block (h : FreshFor i l) (hb : b ∈ i.blocks) : ∀ j ∈ b.insts, FreshFor j l :=
  freshFor_of_forall_not_mem fun y hy hmem => h y hy (Inst.mem_nestedIds.2 ⟨b, hb, hmem⟩)

/-- An instruction of a block does not stand in a block of another one. -/
lemma freshFor_singleton_of_nodup (hn : b.ids.Nodup) {f : Inst} (hf : f ∈ b.insts) :
    ∀ j ∈ b.insts, FreshFor j [f.id] := by
  rw [Block.ids_eq] at hn
  generalize b.insts = l at hn hf
  induction l with
  | nil => exact absurd hf List.not_mem_nil
  | cons i l ih =>
    simp only [instsIds] at hn
    obtain ⟨hni, hnl, hdisj⟩ := List.nodup_append.1 hn
    intro j hj y hy hmem
    obtain rfl : y = f.id := by simpa using hy
    rcases List.mem_cons.1 hj with rfl | hj'
    · rcases List.mem_cons.1 hf with rfl | hf'
      · exact (List.nodup_cons.1 hni).1 hmem
      · exact hdisj _ (List.mem_cons_of_mem _ hmem) _ (mem_instsIds.2 ⟨f, hf', .inl rfl⟩) rfl
    · rcases List.mem_cons.1 hf with rfl | hf'
      · exact hdisj _ List.mem_cons_self _ (mem_instsIds.2 ⟨j, hj', .inr hmem⟩) rfl
      · exact ih hnl hf' j hj' _ hy hmem

variable {c : Block}

/-- What the last instruction of a condition leads to does not stand in the blocks of the
condition. -/
lemma freshFor_conditionTail (hd : ∀ y ∈ b.ids, y ∉ c.ids) (hl : ∀ i ∈ c.insts, FreshFor i l)
    (hc : ∀ i ∈ c.insts, FreshFor i current) :
    ∀ i ∈ c.insts, FreshFor i (appendInst (entriesOf b.insts l) current) := by
  intro i hi y hy
  rcases (mem_appendInst _ _ _).1 hy with hy | hy
  · rcases mem_entriesOf hy with hm | ⟨-, hm⟩
    · rw [← Block.ids_eq] at hm
      exact freshFor_of_forall_not_mem (l := [y]) (by simpa using hd y hm) i hi y (by simp)
    · exact hl i hi y hm
  · exact hc i hi y hy

/-- A list before a tail that is not empty has an entry. -/
lemma entriesOf_ne_nil (l : List Inst) (h : tail ≠ []) : entriesOf l tail ≠ [] := by
  cases l with
  | nil => exact h
  | cons i l => simp

/-- The tail of a condition is not empty. -/
lemma conditionTail_ne_nil (l : List Inst) (h : tail ≠ []) (current : List InstId) :
    appendInst (entriesOf l tail) current ≠ [] := by
  obtain ⟨f, hf⟩ := List.exists_mem_of_ne_nil _ (entriesOf_ne_nil l h)
  exact List.ne_nil_of_mem ((mem_appendInst _ _ f).2 (.inl hf))

variable {id : InstId}

include hE hF in
/-- The parts of a `While` and of a `DoWhile` compared. -/
lemma sameLoop_iff {z : Inst} (hz : c.insts.getLast? = some z) (hvc : c.verified = true)
    (hvb : b.verified = true) (hdisj : ∀ x ∈ c.ids, x ∉ b.ids) (hid : id ∉ c.ids ∧ id ∉ b.ids)
    {next : List InstId} {targets' : List LoopTargets} {Q : InstId → Prop} :
    (∀ x y, F.Edge b.insts l targets' x y ∨
        F.Edge c.insts (appendInst next current) targets x y ∨ x = id ∧ Q y ↔
      E.Edge b.insts l targets' x y ∨
        (E.Edge c.insts [] targets x y ∨ x = z.id ∧ (y ∈ next ∨ y ∈ current)) ∨ x = id ∧ Q y) ↔
    SameInsts E F b.insts l targets' ∧
      SameCondition E F c.insts z (appendInst next current) targets := by
  have hz' : z.id ∈ c.ids := by
    rw [Block.ids_eq]
    exact mem_instsIds.2 ⟨z, List.mem_of_getLast? hz, .inl rfl⟩
  rw [same_or_iff (fun x => x ∈ b.ids), same_or_iff (fun x => x ∈ c.ids)]
  · simp only [SameInsts, SameCondition, mem_appendInst, implies_true, and_true]
  · exact fun x y h => CfgEnv.mem_ids_of_edge hF hvc h
  · rintro x y (h | ⟨rfl, -⟩)
    · exact GraphEnv.mem_ids_of_edge hE hvc h
    · exact hz'
  · rintro x y ⟨rfl, -⟩
    exact hid.1
  · rintro x y ⟨rfl, -⟩
    exact hid.1
  · exact fun x y h => CfgEnv.mem_ids_of_edge hF hvb h
  · exact fun x y h => GraphEnv.mem_ids_of_edge hE hvb h
  · rintro x y (h | ⟨rfl, -⟩)
    · exact hdisj x (CfgEnv.mem_ids_of_edge hF hvc h)
    · exact hid.2
  · rintro x y ((h | ⟨rfl, -⟩) | ⟨rfl, -⟩)
    · exact hdisj x (GraphEnv.mem_ids_of_edge hE hvc h)
    · exact hdisj _ hz'
    · exact hid.2

/-- Adding the same edges at the instruction itself to two relations that have none there. -/
lemma same_or_self_iff {P Q : InstId → InstId → Prop} {R : InstId → Prop}
    (hP : ∀ x y, P x y → x ≠ id) (hQ : ∀ x y, Q x y → x ≠ id) :
    (∀ x y, P x y ∨ x = id ∧ R y ↔ Q x y ∨ x = id ∧ R y) ↔ ∀ x y, P x y ↔ Q x y := by
  rw [same_or_iff (fun x => x ≠ id) hP hQ]
  · simp
  · rintro x y ⟨rfl, -⟩ h
    exact h rfl
  · rintro x y ⟨rfl, -⟩ h
    exact h rfl

include hE hF in
/-- The comparison of an `If`. -/
lemma compared_if {v : Value} {arms : List Block} (hv : (Inst.ifInst id v arms).verified = true)
    (hn : (id :: (Inst.ifInst id v arms).nestedIds).Nodup) (h : ∀ b ∈ arms, ComparedBlock E F b) :
    Compared E F (.ifInst id v arms) := by
  intro current targets hc
  have hid : ∀ b ∈ arms, id ∉ b.ids := fun b hb hmem =>
    (List.nodup_cons.1 hn).1 (Inst.mem_nestedIds.2 ⟨b, hb, hmem⟩)
  have hvb : ∀ b ∈ arms, b.verified = true := fun b hb => Inst.verified_blocks hv hb
  have hF' : ∀ b ∈ arms, ∀ x y, F.Edge b.insts current targets x y → x ≠ id := by
    rintro b hb x y he rfl
    exact hid b hb (CfgEnv.mem_ids_of_edge hF (hvb b hb) he)
  have hE' : ∀ b ∈ arms, ∀ x y, E.Edge b.insts current targets x y → x ≠ id := by
    rintro b hb x y he rfl
    exact hid b hb (GraphEnv.mem_ids_of_edge hE (hvb b hb) he)
  rcases arms with _ | ⟨a, _ | ⟨b, _ | ⟨d, l⟩⟩⟩
  · simp [Inst.verified] at hv
  · have ha := (h a (by simp)).block current targets (hc.block (by simp [Inst.blocks]))
    unfold SameInst
    simp only [CfgEnv.instEdge_if hF, GraphEnv.instEdge_if hE]
    rw [same_or_self_iff (hF' a (by simp)) (hE' a (by simp))]
    simpa [Inst.cfgAgrees, cfgAgreesBlocks, SameInsts] using ha
  · have ha := (h a (by simp)).block current targets (hc.block (by simp [Inst.blocks]))
    have hb := (h b (by simp)).block current targets (hc.block (by simp [Inst.blocks]))
    have hab : ∀ x ∈ b.ids, x ∉ a.ids := by
      simp only [Inst.nestedIds, blocksIds, List.append_nil, List.nodup_cons] at hn
      exact fun x hx hx' => (List.nodup_append.1 hn.2).2.2 x hx' x hx rfl
    unfold SameInst
    simp only [CfgEnv.instEdge_ifElse hF, GraphEnv.instEdge_ifElse hE]
    rw [same_or_iff (fun x => x ∈ a.ids), same_or_self_iff (hF' b (by simp)) (hE' b (by simp))]
    · simp only [Inst.cfgAgrees, cfgAgreesBlocks, Bool.and_true, Bool.and_eq_true]
      exact and_congr ha hb
    · exact fun x y he => CfgEnv.mem_ids_of_edge hF (hvb a (by simp)) he
    · exact fun x y he => GraphEnv.mem_ids_of_edge hE (hvb a (by simp)) he
    · rintro x y (he | ⟨rfl, -⟩)
      · exact hab x (CfgEnv.mem_ids_of_edge hF (hvb b (by simp)) he)
      · exact hid a (by simp)
    · rintro x y (he | ⟨rfl, -⟩)
      · exact hab x (GraphEnv.mem_ids_of_edge hE (hvb b (by simp)) he)
      · exact hid a (by simp)
  · simp [Inst.verified] at hv

include hE hF in
/-- The arms of a `Switch` compared. -/
lemma sameArms_iff {arms : List (Int × Block)} (hv : verifiedArms arms = true)
    (hn : (armsIds arms).Nodup)
    (h : ∀ a ∈ arms, SameInsts E F a.2.insts current targets ↔
      a.2.cfgAgrees (!current.isEmpty) = true) :
    (∀ x y, (∃ a ∈ arms, F.Edge a.2.insts current targets x y) ↔
      ∃ a ∈ arms, E.Edge a.2.insts current targets x y) ↔
    cfgAgreesArms arms (!current.isEmpty) = true := by
  induction arms with
  | nil => simp [cfgAgreesArms]
  | cons a arms ih =>
    obtain ⟨k, b⟩ := a
    have hv' := verifiedArms_iff.1 hv
    simp only [verifiedArms, Bool.and_eq_true] at hv
    simp only [armsIds] at hn
    obtain ⟨-, hna, hdisj⟩ := List.nodup_append.1 hn
    have hb := h (k, b) List.mem_cons_self
    simp only [List.exists_mem_cons_iff]
    rw [same_or_iff (fun x => x ∈ b.ids), ih hv.2 hna fun a ha => h a (List.mem_cons_of_mem _ ha),
      cfgAgreesArms, Bool.and_eq_true]
    · exact and_congr_left fun _ => hb
    · exact fun x y he => CfgEnv.mem_ids_of_edge hF hv.1 he
    · exact fun x y he => GraphEnv.mem_ids_of_edge hE hv.1 he
    · rintro x y ⟨a, ha, he⟩ hx
      have hxa := CfgEnv.mem_ids_of_edge hF (hv' a (List.mem_cons_of_mem _ ha)) he
      exact hdisj x hx x (mem_armsIds.2 ⟨a, ha, hxa⟩) rfl
    · rintro x y ⟨a, ha, he⟩ hx
      have hxa := GraphEnv.mem_ids_of_edge hE (hv' a (List.mem_cons_of_mem _ ha)) he
      exact hdisj x hx x (mem_armsIds.2 ⟨a, ha, hxa⟩) rfl

include hE hF in
/-- The comparison of a `Switch`. -/
lemma compared_switch {v : Value} {arms : List (Int × Block)}
    (hv : (Inst.switch id v arms).verified = true)
    (hn : (id :: (Inst.switch id v arms).nestedIds).Nodup)
    (h : ∀ b ∈ (Inst.switch id v arms).blocks, ComparedBlock E F b) :
    Compared E F (.switch id v arms) := by
  intro current targets hc
  have hmem : ∀ a ∈ arms, a.2 ∈ (Inst.switch id v arms).blocks := fun a ha =>
    List.mem_map.2 ⟨a, ha, rfl⟩
  have hid : ∀ a ∈ arms, id ∉ a.2.ids := fun a ha hx =>
    (List.nodup_cons.1 hn).1 (Inst.mem_nestedIds.2 ⟨a.2, hmem a ha, hx⟩)
  simp only [Inst.nestedIds, List.nodup_cons] at hn
  simp only [Inst.verified] at hv
  have hv' := verifiedArms_iff.1 hv
  unfold SameInst
  simp only [CfgEnv.instEdge_switch hF, GraphEnv.instEdge_switch hE]
  rw [same_or_self_iff, sameArms_iff hE hF hv hn.2, Inst.cfgAgrees]
  · exact fun a ha => (h a.2 (hmem a ha)).block current targets (hc.block (hmem a ha))
  · rintro x y ⟨a, ha, he⟩ rfl
    exact hid a ha (CfgEnv.mem_ids_of_edge hF (hv' a ha) he)
  · rintro x y ⟨a, ha, he⟩ rfl
    exact hid a ha (GraphEnv.mem_ids_of_edge hE (hv' a ha) he)

include hE hF in
/-- The comparison of a `While` or a `DoWhile`, which differ in the entry of the loop only. -/
lemma compared_loop {f z : Inst} {Q : InstId → Prop} (hf : c.insts.head? = some f)
    (hz : c.insts.getLast? = some z) (hy : z.yieldsValue = true) (hvc : c.verified = true)
    (hvb : b.verified = true) (hids : i.nestedIds = c.ids ++ b.ids)
    (hn : (i.id :: i.nestedIds).Nodup) (hblocks : i.blocks = [c, b]) (hc : ComparedBlock E F c)
    (hb : ComparedBlock E F b)
    (hagree : ∀ followed, i.cfgAgrees followed = (c.cfgAgreesCondition && b.cfgAgrees true))
    (hFi : ∀ current targets x y, F.InstEdge i current targets x y ↔
      F.Edge b.insts [f.id] (⟨current, [f.id]⟩ :: targets) x y ∨
        F.Edge c.insts (appendInst (entriesOf b.insts [f.id]) current) targets x y ∨
        x = i.id ∧ Q y)
    (hEi : ∀ current targets x y, E.InstEdge i current targets x y ↔
      E.Edge b.insts [f.id] (⟨current, [f.id]⟩ :: targets) x y ∨
        (E.Edge c.insts [] targets x y ∨
          x = z.id ∧ (y ∈ entriesOf b.insts [f.id] ∨ y ∈ current)) ∨ x = i.id ∧ Q y) :
    Compared E F i := by
  intro current targets ht
  simp only [hids, List.nodup_cons, List.mem_append, not_or] at hn
  obtain ⟨hid, hn⟩ := hn
  obtain ⟨hnc, -, hdisj⟩ := List.nodup_append.1 hn
  have hfc : f.id ∈ c.ids := by
    rw [Block.ids_eq]
    exact mem_instsIds.2 ⟨f, List.mem_of_mem_head? hf, .inl rfl⟩
  have hfresh := freshFor_singleton_of_nodup hnc (List.mem_of_mem_head? hf)
  have hbody : ∀ j ∈ b.insts, FreshFor j [f.id] := by
    refine freshFor_of_forall_not_mem fun y hy hm => ?_
    obtain rfl : y = f.id := by simpa using hy
    exact hdisj _ hfc _ hm rfl
  have hcond := freshFor_conditionTail (b := b) (fun y hy hy' => hdisj y hy' y hy rfl) hfresh
    (ht.block (b := c) (by simp [hblocks]))
  unfold SameInst
  simp only [hFi, hEi]
  rw [sameLoop_iff hE hF hz hvc hvb (fun x hx hx' => hdisj x hx x hx' rfl) hid,
    hb.block [f.id] _ hbody,
    hc.condition z hz hy _ targets (conditionTail_ne_nil _ (by simp) _) hcond,
    hagree, Bool.and_eq_true, and_comm]
  simp

include hE hF in
/-- The comparison of a `For`. -/
lemma compared_for {i p : Block} (hv : (Inst.forLoop id i c p b).verified = true)
    (hn : (id :: (Inst.forLoop id i c p b).nestedIds).Nodup)
    (h : ∀ d ∈ (Inst.forLoop id i c p b).blocks, ComparedBlock E F d) :
    Compared E F (.forLoop id i c p b) := by
  intro current targets ht
  simp only [Inst.verified, Bool.and_eq_true] at hv
  obtain ⟨f, z, hf, hz, hy⟩ := Block.exists_of_verifiedCondition hv.1.1.1.2
  simp only [Inst.nestedIds, List.nodup_cons, List.mem_append, not_or] at hn
  obtain ⟨⟨⟨⟨hidi, hidc⟩, hidp⟩, hidb⟩, hn⟩ := hn
  obtain ⟨hn, -, hdb⟩ := List.nodup_append.1 hn
  obtain ⟨hn, -, hdp⟩ := List.nodup_append.1 hn
  obtain ⟨-, hnc, hdc⟩ := List.nodup_append.1 hn
  have hfc : f.id ∈ c.ids := by
    rw [Block.ids_eq]
    exact mem_instsIds.2 ⟨f, List.mem_of_mem_head? hf, .inl rfl⟩
  have hzc : z.id ∈ c.ids := by
    rw [Block.ids_eq]
    exact mem_instsIds.2 ⟨z, List.mem_of_getLast? hz, .inl rfl⟩
  have hfresh := freshFor_singleton_of_nodup hnc (List.mem_of_mem_head? hf)
  -- no instruction stands in two of the four blocks
  have hpc : ∀ x ∈ c.ids, x ∉ p.ids := fun x hx hx' => hdp x (by simp [hx]) x hx' rfl
  have hpi : ∀ x ∈ i.ids, x ∉ p.ids := fun x hx hx' => hdp x (by simp [hx]) x hx' rfl
  have hbp : ∀ x ∈ p.ids, x ∉ b.ids := fun x hx hx' => hdb x (by simp [hx]) x hx' rfl
  have hbc : ∀ x ∈ c.ids, x ∉ b.ids := fun x hx hx' => hdb x (by simp [hx]) x hx' rfl
  have hbi : ∀ x ∈ i.ids, x ∉ b.ids := fun x hx hx' => hdb x (by simp [hx]) x hx' rfl
  have hci : ∀ x ∈ i.ids, x ∉ c.ids := fun x hx hx' => hdc x hx x hx' rfl
  have hstep : ∀ y ∈ entriesOf p.insts [f.id], y ∈ p.ids ∨ y = f.id := by
    intro y hy
    rcases mem_entriesOf hy with hm | ⟨-, hm⟩
    · exact .inl (by rwa [Block.ids_eq])
    · exact .inr (by simpa using hm)
  have hp' : ∀ j ∈ p.insts, FreshFor j [f.id] :=
    freshFor_of_forall_not_mem (by simpa using hpc _ hfc)
  have hi' : ∀ j ∈ i.insts, FreshFor j [f.id] :=
    freshFor_of_forall_not_mem (by simpa using fun hm => hci _ hm hfc)
  have hb' : ∀ j ∈ b.insts, FreshFor j (entriesOf p.insts [f.id]) := by
    refine freshFor_of_forall_not_mem fun y hy hm => ?_
    rcases hstep y hy with h | rfl
    · exact hbp y h hm
    · exact hbc _ hfc hm
  have hsteps : ∀ j ∈ c.insts, FreshFor j (entriesOf p.insts [f.id]) := by
    intro j hj y hy
    rcases hstep y hy with h | rfl
    · exact freshFor_of_forall_not_mem (l := [y]) (by simpa using fun hm => hpc y hm h) j hj y
        (by simp)
    · exact hfresh j hj _ (by simp)
  have hcond := freshFor_conditionTail (b := b) (fun y hy hy' => hbc y hy' hy) hsteps
    (ht.block (b := c) (by simp [Inst.blocks]))
  have hne : entriesOf p.insts [f.id] ≠ [] := entriesOf_ne_nil _ (by simp)
  have hF' : ∀ {d : Block} {tail : List InstId} {targets : List LoopTargets} {x y : InstId},
      d.verified = true → F.Edge d.insts tail targets x y → x ∈ d.ids :=
    fun hd he => CfgEnv.mem_ids_of_edge hF hd he
  have hE' : ∀ {d : Block} {tail : List InstId} {targets : List LoopTargets} {x y : InstId},
      d.verified = true → E.Edge d.insts tail targets x y → x ∈ d.ids :=
    fun hd he => GraphEnv.mem_ids_of_edge hE hd he
  unfold SameInst
  simp only [CfgEnv.instEdge_for hF _ _ _ _ hf, GraphEnv.instEdge_for hE _ _ _ _ hf hz]
  rw [same_or_iff (fun x => x ∈ p.ids), same_or_iff (fun x => x ∈ b.ids),
    same_or_iff (fun x => x ∈ c.ids), same_or_self_iff]
  · have hsp := (h p (by simp [Inst.blocks])).block [f.id] targets hp'
    have hsb := (h b (by simp [Inst.blocks])).block (entriesOf p.insts [f.id])
      (⟨current, entriesOf p.insts [f.id]⟩ :: targets) hb'
    have hsc := (h c (by simp [Inst.blocks])).condition z hz hy _ targets
      (conditionTail_ne_nil b.insts hne current) hcond
    have hsi := (h i (by simp [Inst.blocks])).block [f.id] targets hi'
    have htrue : (!(entriesOf p.insts [f.id]).isEmpty) = true := by simpa using hne
    rw [htrue] at hsb
    simp only [SameInsts, SameCondition, mem_appendInst] at hsp hsb hsc hsi
    rw [hsp, hsb, hsc, hsi]
    simp only [Inst.cfgAgrees, Bool.and_eq_true, List.isEmpty_cons, Bool.not_false]
    tauto
  · rintro x y he rfl
    exact hidi (hF' hv.1.1.1.1 he)
  · rintro x y he rfl
    exact hidi (hE' hv.1.1.1.1 he)
  · exact fun x y he => hF' hv.1.1.2 he
  · rintro x y (he | ⟨rfl, -⟩)
    · exact hE' hv.1.1.2 he
    · exact hzc
  · rintro x y (he | ⟨rfl, -⟩)
    · exact hci x (hF' hv.1.1.1.1 he)
    · exact hidc
  · rintro x y (he | ⟨rfl, -⟩)
    · exact hci x (hE' hv.1.1.1.1 he)
    · exact hidc
  · exact fun x y he => hF' hv.2 he
  · exact fun x y he => hE' hv.2 he
  · rintro x y (he | he | ⟨rfl, -⟩)
    · exact hbc x (hF' hv.1.1.2 he)
    · exact hbi x (hF' hv.1.1.1.1 he)
    · exact hidb
  · rintro x y ((he | ⟨rfl, -⟩) | he | ⟨rfl, -⟩)
    · exact hbc x (hE' hv.1.1.2 he)
    · exact hbc _ hzc
    · exact hbi x (hE' hv.1.1.1.1 he)
    · exact hidb
  · exact fun x y he => hF' hv.1.2 he
  · exact fun x y he => hE' hv.1.2 he
  · rintro x y (he | he | he | ⟨rfl, -⟩)
    · exact fun hx => hbp x hx (hF' hv.2 he)
    · exact hpc x (hF' hv.1.1.2 he)
    · exact hpi x (hF' hv.1.1.1.1 he)
    · exact hidp
  · rintro x y (he | (he | ⟨rfl, -⟩) | he | ⟨rfl, -⟩)
    · exact fun hx => hbp x hx (hE' hv.2 he)
    · exact hpc x (hE' hv.1.1.2 he)
    · exact hpc _ hzc
    · exact hpi x (hE' hv.1.1.1.1 he)
    · exact hidp

include hE hF in
/-- **The comparison of an instruction**, from the comparisons of the blocks it carries. -/
lemma compared_of_blocks (hv : i.verified = true) (hn : (i.id :: i.nestedIds).Nodup)
    (h : ∀ b ∈ i.blocks, ComparedBlock E F b) : Compared E F i := by
  cases i with
  | ifInst id v arms => exact compared_if hE hF hv hn h
  | switch id v arms => exact compared_switch hE hF hv hn h
  | forLoop id i c p b => exact compared_for hE hF hv hn h
  | whileLoop id c b =>
    simp only [Inst.verified, Bool.and_eq_true] at hv
    obtain ⟨f, z, hf, hz, hy⟩ := Block.exists_of_verifiedCondition hv.1.1
    exact compared_loop hE hF hf hz hy hv.1.2 hv.2 (by simp [Inst.nestedIds]) hn rfl
      (h c (by simp [Inst.blocks])) (h b (by simp [Inst.blocks]))
      (fun _ => by simp [Inst.cfgAgrees]) (CfgEnv.instEdge_while hF id b hf)
      (GraphEnv.instEdge_while hE id b hf hz)
  | doWhile id c b =>
    simp only [Inst.verified, Bool.and_eq_true] at hv
    obtain ⟨f, z, hf, hz, hy⟩ := Block.exists_of_verifiedCondition hv.1.1
    exact compared_loop hE hF hf hz hy hv.1.2 hv.2 (by simp [Inst.nestedIds]) hn rfl
      (h c (by simp [Inst.blocks])) (h b (by simp [Inst.blocks]))
      (fun _ => by simp [Inst.cfgAgrees]) (CfgEnv.instEdge_doWhile hF id b hf)
      (GraphEnv.instEdge_doWhile hE id b hf hz)
  | scopedBlock id b =>
    intro current targets hc
    simp only [SameInst, CfgEnv.instEdge_scopedBlock, GraphEnv.instEdge_scopedBlock hE,
      Inst.cfgAgrees]
    cases hb : b.insts with
    | nil => simp [GraphEnv.edge_nil]
    | cons j l =>
      refine iff_of_false (fun hsame => ?_) (by simp)
      have hmem := ((hsame id j.id).2 (.inr ⟨rfl, by simp⟩)).2
      refine hc _ hmem (Inst.mem_nestedIds.2 ⟨b, by simp [Inst.blocks], ?_⟩)
      rw [Block.ids_eq, hb]
      simp [instsIds]
  | taskScope id b =>
    intro current targets hc
    simp only [SameInst, CfgEnv.instEdge_taskScope hF, GraphEnv.instEdge_taskScope,
      Inst.cfgAgrees]
    cases hb : b.insts with
    | nil => simp [CfgEnv.edge_nil]
    | cons j l =>
      refine iff_of_false (fun hsame => ?_) (by simp)
      have hmem := ((hsame id j.id).1 (.inr ⟨rfl, by simp⟩)).2
      refine hc _ hmem (Inst.mem_nestedIds.2 ⟨b, by simp [Inst.blocks], ?_⟩)
      rw [Block.ids_eq, hb]
      simp [instsIds]
  | ret id k v =>
    intro current targets hc
    by_cases hk : k = .ret
    · subst hk
      simp [SameInst, CfgEnv.instEdge_ret hF, GraphEnv.instEdge_ret hE, Inst.cfgAgrees]
    · have hagree : (Inst.ret id k v).cfgAgrees (!current.isEmpty) = current.isEmpty := by
        cases k with
        | ret => exact absurd rfl hk
        | _ => simp [Inst.cfgAgrees]
      rw [hagree]
      simp only [SameInst, CfgEnv.instEdge_ret hF, GraphEnv.instEdge_coroutineReturn _ hk]
      cases current with
      | nil => simp
      | cons y l => exact iff_of_false (fun hsame => (hsame id y).2 ⟨rfl, by simp⟩) (by simp)
  | brk id n =>
    intro current targets _
    simp [SameInst, CfgEnv.instEdge_brk hF, GraphEnv.instEdge_brk hE, Inst.cfgAgrees]
  | cont id n =>
    intro current targets _
    simp [SameInst, CfgEnv.instEdge_cont hF, GraphEnv.instEdge_cont hE, Inst.cfgAgrees]
  | defer id d =>
    intro current targets _
    refine iff_of_true (fun x y => ?_) rfl
    simp [CfgEnv.InstEdge, CfgEnv.buildCfgInst, GraphEnv.InstEdge, GraphEnv.buildInst]
  | unrecoverableFailure id =>
    intro current targets _
    simp [SameInst, CfgEnv.instEdge_unrecoverableFailure, GraphEnv.instEdge_unrecoverableFailure,
      Inst.cfgAgrees]
  | _ =>
    intro current targets _
    refine iff_of_true (fun x y => ?_) rfl
    rw [CfgEnv.instEdge_straightLine rfl, GraphEnv.instEdge_straightLine rfl]

/-- The instructions of a block are numbered without repetition if those of the block are. -/
lemma nodup_of_mem_insts (hn : b.ids.Nodup) (hi : i ∈ b.insts) : (i.id :: i.nestedIds).Nodup := by
  rw [Block.ids_eq] at hn
  generalize b.insts = l at hn hi
  induction l with
  | nil => exact absurd hi List.not_mem_nil
  | cons j l ih =>
    simp only [instsIds] at hn
    obtain ⟨hni, hnl, -⟩ := List.nodup_append.1 hn
    rcases List.mem_cons.1 hi with rfl | hi
    · exact hni
    · exact ih hnl hi

/-- The blocks of an instruction are numbered without repetition if the instruction is. -/
lemma Inst.nodup_blocks (hn : i.nestedIds.Nodup) (hb : b ∈ i.blocks) : b.ids.Nodup := by
  cases i with
  | ifInst id c arms =>
    simp only [Inst.nestedIds, Inst.blocks] at hn hb
    induction arms with
    | nil => exact absurd hb List.not_mem_nil
    | cons a arms ih =>
      simp only [blocksIds] at hn
      obtain ⟨hna, hnl, -⟩ := List.nodup_append.1 hn
      rcases List.mem_cons.1 hb with rfl | hb
      · exact hna
      · exact ih hnl hb
  | switch id v arms =>
    simp only [Inst.nestedIds, Inst.blocks] at hn hb
    induction arms with
    | nil => exact absurd hb List.not_mem_nil
    | cons a arms ih =>
      obtain ⟨k, a⟩ := a
      simp only [armsIds] at hn
      obtain ⟨hna, hnl, -⟩ := List.nodup_append.1 hn
      rcases List.mem_cons.1 hb with rfl | hb
      · exact hna
      · exact ih hnl hb
  | defer id d | scopedBlock id d | taskScope id d =>
    obtain rfl : b = d := by simpa [Inst.blocks] using hb
    simpa [Inst.nestedIds] using hn
  | whileLoop id c d | doWhile id c d =>
    simp only [Inst.nestedIds] at hn
    obtain ⟨hnc, hnd, -⟩ := List.nodup_append.1 hn
    simp only [Inst.blocks, List.mem_cons, List.not_mem_nil, or_false] at hb
    rcases hb with rfl | rfl
    · exact hnc
    · exact hnd
  | forLoop id i c p d =>
    simp only [Inst.nestedIds] at hn
    obtain ⟨hn, hnd, -⟩ := List.nodup_append.1 hn
    obtain ⟨hn, hnp, -⟩ := List.nodup_append.1 hn
    obtain ⟨hni, hnc, -⟩ := List.nodup_append.1 hn
    simp only [Inst.blocks, List.mem_cons, List.not_mem_nil, or_false] at hb
    rcases hb with rfl | rfl | rfl | rfl
    · exact hni
    · exact hnc
    · exact hnp
    · exact hnd
  | _ => simp [Inst.blocks] at hb

include hE hF in
/-- **The comparison of a block.** -/
lemma comparedBlock (b : Block) : b.verified = true → b.ids.Nodup → ComparedBlock E F b := by
  induction b using Block.induction with
  | h b ih =>
    intro hv hn
    refine comparedBlock_of_insts hE hF hv hn fun i hi => ?_
    have hvi := Block.verified_iff.1 hv i hi
    have hni := nodup_of_mem_insts hn hi
    exact compared_of_blocks hE hF hvi hni fun c hc =>
      ih i hi c hc (Inst.verified_blocks hvi hc) (Inst.nodup_blocks (List.nodup_cons.1 hni).2 hc)

end Comparison

/-! ## The graphs of a body -/

/-- The instructions the worklist of `buildFunctionGraph` visits. -/
def FunctionGraph.Reachable (g : FunctionGraph) (x : InstId) : Prop :=
  ∃ e ∈ g.entries, Relation.ReflTransGen (HasEdge g.edges) e x

/-- The instructions the worklist of the loan analysis visits. -/
def LoanCfg.Reachable (c : LoanCfg) (x : InstId) : Prop :=
  ∃ e ∈ c.entries, Relation.ReflTransGen (fun x y => (x, y) ∈ c.edges) e x

/-- The graphs have the same successor relation, edge conditions forgotten, and reach the same
instructions. -/
structure SameFlow (g : FunctionGraph) (c : LoanCfg) : Prop where
  successors : ∀ x y, (x, y) ∈ c.edges ↔ HasEdge g.edges x y
  reachable : ∀ x, c.Reachable x ↔ g.Reachable x

/-- **Agreement of the control-flow builders.** For a verified body without deferred blocks, in
which no instruction occurs twice, the graph of the loan analysis and the graph of the callable
ownership analysis have the same successors and reach the same instructions iff no scoped block or
task scope of the body has instructions, every coroutine return stands where nothing follows, and
the condition of every loop ends in a straight-line instruction. -/
theorem sameFlow_iff_cfgAgrees (parameters : List LocalId) (body : Block)
    (hv : body.verified = true) (hd : body.deferDepth = 0) (hn : body.ids.Nodup) :
    SameFlow (buildFunctionGraph parameters body) (loanCfg .none body) ↔
      body.cfgAgrees false = true := by
  have hE : (GraphEnv.mk parameters (collectDefers body)
      (buildLevel parameters (collectDefers body) 0)).tables.Empty := collectDefers_empty hd
  have hF : (CfgEnv.mk .none (buildCfgLevel .none 0)).plans = .none := rfl
  have hcmp := (comparedBlock hE hF body hv hn).block [] [] (by simp [FreshFor])
  have hg : buildFunctionGraph parameters body =
      ⟨entriesOf body.insts [], (GraphEnv.buildInsts ⟨parameters, collectDefers body,
        buildLevel parameters (collectDefers body) 0⟩ body.insts [] []).2⟩ := by
    rw [buildFunctionGraph, hd, buildLevel_succ, GraphEnv.build_eq hE, ← GraphEnv.buildInsts_fst]
  have hc : loanCfg .none body =
      ⟨entriesOf body.insts [], (CfgEnv.buildCfgInsts ⟨.none, buildCfgLevel .none 0⟩
        body.insts [] []).2⟩ := by
    rw [loanCfg, hd, buildCfgLevel_succ, CfgEnv.buildCfg_eq hF, ← CfgEnv.buildCfgInsts_fst]
  rw [hg, hc]
  constructor
  · intro h
    exact hcmp.1 h.successors
  · intro h
    have hsame := hcmp.2 h
    refine ⟨hsame, fun x => ?_⟩
    have hrel : (fun x y => (x, y) ∈ (CfgEnv.buildCfgInsts ⟨.none, buildCfgLevel .none 0⟩
        body.insts [] []).2) = HasEdge (GraphEnv.buildInsts ⟨parameters, collectDefers body,
        buildLevel parameters (collectDefers body) 0⟩ body.insts [] []).2 := by
      funext x y
      exact propext (hsame x y)
    simp only [LoanCfg.Reachable, FunctionGraph.Reachable]
    rw [hrel]

/-- `while (a) { if (b) { break; } } return;`: the graphs agree. -/
theorem sameFlow_iff_cfgAgrees_while :
    SameFlow
      (buildFunctionGraph [0, 1] (.mk 0 [.whileLoop 0 (.mk 1 [.value (.nameRef 1 0)])
        (.mk 2 [.value (.nameRef 2 1), .ifInst 3 (.nameRef 2 1) [.mk 3 [.brk 4 0]]]),
        .ret 5 .ret (.boolLiteral 6 true)]))
      (loanCfg .none (.mk 0 [.whileLoop 0 (.mk 1 [.value (.nameRef 1 0)])
        (.mk 2 [.value (.nameRef 2 1), .ifInst 3 (.nameRef 2 1) [.mk 3 [.brk 4 0]]]),
        .ret 5 .ret (.boolLiteral 6 true)])) :=
  (sameFlow_iff_cfgAgrees _ _ (by decide) (by decide) (by decide)).2 (by decide)

/-- `{ true; } return;`: the body of a scoped block. -/
def scopedBlockBody : Block :=
  .mk 0 [.scopedBlock 0 (.mk 1 [.value (.boolLiteral 1 true)]), .ret 2 .ret (.boolLiteral 3 true)]

/-- The callable ownership graph enters the scoped block, the loan graph does not. -/
theorem scopedBlockBody_not_sameFlow :
    scopedBlockBody.verified = true ∧ scopedBlockBody.deferDepth = 0 ∧ scopedBlockBody.ids.Nodup ∧
      ¬ SameFlow (buildFunctionGraph [] scopedBlockBody) (loanCfg .none scopedBlockBody) := by
  refine ⟨by decide, by decide, by decide, fun h => ?_⟩
  have hedge : HasEdge (buildFunctionGraph [] scopedBlockBody).edges 0 1 :=
    ⟨⟨0, 1, .always⟩, by decide, rfl, rfl⟩
  exact absurd ((h.successors 0 1).2 hedge) (by decide)

end Chtholly
