import Chtholly.PlaceState.Frame
import Chtholly.SemIR.Triple

set_option autoImplicit false

/-!
# The control flow of the analysis is sound

What the analyzer says of the active locals holds in every execution, for any meaning of the facts
about one local under which joins, the comparison of headers, the straight-line instructions and the
choice of a switch arm are sound. Loops are the point: the states that a loop is analysed with in its
last pass cover every pass of an execution, because the header of that pass covers the states at the
end of the body and on the edges back to it.

## Main definitions

* `Chtholly.Covers` — the facts about the active locals hold in a state.
* `Chtholly.Interprets` — what a meaning of the facts about one local has to do.

## Main results

* `Chtholly.sound_analyzeBlock` — the runs of a block whose analysis emits no diagnostic reach every
  instruction in a state that a snapshot of the analysis covers.
-/

namespace Chtholly

open Analysis

section

variable {σ : Type}

/-! ## States that the analysis covers -/

/-- The facts about the active locals hold in a state. -/
def Covers (env : PlaceEnv) (R : LocalId → RootState → σ → Prop) (S : StateMap)
    (active : List LocalId) (s : σ) : Prop :=
  ∀ l ∈ active, R l (S.root env.sem l) s

/-- What the meaning `R` of the facts about one local has to do, for the covered instructions. -/
structure Interprets (env : PlaceEnv) (M : Machine σ) (R : LocalId → RootState → σ → Prop)
    (covered : Inst → Bool) : Prop where
  quiet : ∀ i, covered i = true → i.quiet = true
  merge_left : ∀ {l : LocalId} {r : RootState} (r' : RootState) {s : σ},
    R l r s → R l (r.merge r') s
  merge_right : ∀ {l : LocalId} {r r' : RootState} {s : σ}, r.shape = r'.shape →
    R l r' s → R l (r.merge r') s
  same : ∀ {l : LocalId} {r r' : RootState} {s : σ}, r.shape = r'.shape → r.same r' = true →
    R l r' s → R l r s
  arm : ∀ {l : LocalId} {r : RootState} {s : σ} {v : Value} {p : ResolvedPlace} {k : Int},
    resolvePlace env.sem v = some p → p.root = l → M.selects v s k → 0 ≤ k → R l r s →
    R l (r.setVariant p.path k) s
  step : ∀ {i : Inst} {a : Analysis} {s s' : σ}, covered i = true → Inv env a →
    (∀ id l, i = .declareUninitialized id l → a.states.has l = false) →
    (transfer env i a).diagnostics = a.diagnostics → Covers env R a.states a.activeLocals s →
    M.step i s s' →
    Covers env R (transfer env i a).states (transfer env i a).activeLocals s'
  leave : ∀ {b : InstBlockId} {s s' : σ}, M.leave b s s' → s' = s
  edge : ∀ {i : InstId} {s s' : σ}, M.edge i s s' → s' = s

variable {env : PlaceEnv} {M : Machine σ} {R : LocalId → RootState → σ → Prop}
  {covered : Inst → Bool} {S T : StateMap} {act act' : List LocalId} {s : σ}

lemma Covers.congr (h : Covers env R S act s)
    (hroot : ∀ l ∈ act, T.root env.sem l = S.root env.sem l) : Covers env R T act s := by
  intro l hl
  rw [hroot l hl]
  exact h l hl

lemma Covers.of_subset (h : Covers env R S act s) (hact : ∀ l ∈ act', l ∈ act) :
    Covers env R S act' s := fun l hl => h l (hact l hl)

lemma Covers.restrict (h : Covers env R S act s) (hact : act' <+: act) :
    Covers env R S act' s := h.of_subset fun _ hl => hact.subset hl

lemma Covers.eraseLocals (h : Covers env R S act s) (hn : act.Nodup) (k : Nat) :
    Covers env R (S.eraseLocals (act.drop k)) (act.take k) s := by
  refine (h.of_subset fun l hl => List.mem_of_mem_take hl).congr fun l hl => ?_
  have hsplit := List.nodup_append.1 ((List.take_append_drop k act).symm ▸ hn)
  exact StateMap.root_eraseLocals_of_notMem fun hd => hsplit.2.2 l hl l hd rfl

section

variable (hI : Interprets env M R covered)
include hI

lemma Covers.merge_left (h : Covers env R S act s) (T : StateMap) :
    Covers env R (S.merge T) act s := by
  intro l hl
  by_cases hT : T.has l = true
  · by_cases hS : S.has l = true
    · rw [StateMap.root_merge hS hT]
      exact hI.merge_left _ (h l hl)
    · have hnone : S.lookup l = none := by
        cases hl' : S.lookup l with
        | none => rfl
        | some r => exact absurd (StateMap.has_iff.2 ⟨r, hl'⟩) hS
      have hroot : (S.merge T).root env.sem l = S.root env.sem l := by
        rw [StateMap.root, StateMap.lookup_merge, hnone, StateMap.root, hnone]
        rfl
      rw [hroot]
      exact h l hl
  · rw [StateMap.root_merge_of_not_has (by simpa using hT)]
    exact h l hl

lemma Covers.merge_right (hS : MapOk env S act) (hT : MapOk env T act)
    (h : Covers env R T act s) : Covers env R (S.merge T) act s := by
  intro l hl
  rw [StateMap.root_merge (hS.has l hl) (hT.has l hl)]
  exact hI.merge_right ((hS.shaped l).trans (hT.shaped l).symm) (h l hl)

lemma Covers.foldl_merge (h : Covers env R S act s) (Ts : List StateMap) :
    Covers env R (Ts.foldl .merge S) act s := by
  induction Ts generalizing S with
  | nil => exact h
  | cons T Ts ih => exact ih (h.merge_left hI T)

lemma Covers.joinEdge_left (h : Covers env R S act s) (T : Option StateMap) :
    Covers env R (joinEdge S T) act s := by
  cases T with
  | none => exact h
  | some T => exact h.merge_left hI T

/-- A header that equals the states after the body covers them. -/
lemma Covers.same (hS : MapOk env S act) (hT : MapOk env T act) (hsame : S.same T = true)
    (h : Covers env R T act s) : Covers env R S act s := by
  intro l hl
  obtain ⟨r, hr⟩ := StateMap.has_iff.1 (hS.has l hl)
  obtain ⟨l₁, l₂, heq, -⟩ := List.lookup_eq_some_iff.1 hr
  simp only [StateMap.same, Bool.and_eq_true, List.all_eq_true] at hsame
  have hone := hsame.2 (l, r) (by simp [heq])
  cases hT' : T.lookup l with
  | none => simp [hT'] at hone
  | some r' =>
    simp only [hT'] at hone
    have hshape := (hS.shaped l).trans (hT.shaped l).symm
    have hl' := h l hl
    rw [StateMap.root_of_lookup hr] at hshape ⊢
    rw [StateMap.root_of_lookup hT'] at hshape hl'
    exact hI.same hshape hone hl'

end

/-! ## Edges and exits -/

/-- An edge to a loop, if the loop exists, has states that cover the state. -/
def EdgeCovers (env : PlaceEnv) (R : LocalId → RootState → σ → Prop) (act : List LocalId)
    (flows : List LoopFlow) (breaks : Bool) (k : Nat) (s : σ) : Prop :=
  ∀ f, flows[k]? = some f →
    ∃ S, f.edge breaks = some S ∧ Covers env R S (act.take (f.localDepth breaks)) s

/-- What holds on the edges that leave a fragment. -/
def edgePost (env : PlaceEnv) (R : LocalId → RootState → σ → Prop) (act : List LocalId)
    (flows : List LoopFlow) : Exit → σ → Prop
  | .brk k => EdgeCovers env R act flows true k
  | .cont k => EdgeCovers env R act flows false k
  | _ => fun _ => True

/-- What holds when a fragment is left whose analysis, from a state with the given active locals,
ended in `a`. -/
def flowPost (env : PlaceEnv) (R : LocalId → RootState → σ → Prop) (act : List LocalId) (r : Bool)
    (a : Analysis) : Exit → σ → Prop :=
  thenPost (fun s => r = true ∧ Covers env R a.states a.activeLocals s)
    (edgePost env R act a.loopFlows)

/-- A snapshot of the analysis covers the state in which the instruction was reached. -/
def Recorded (env : PlaceEnv) (R : LocalId → RootState → σ → Prop) (a : Analysis) (i : InstId)
    (s : σ) : Prop :=
  ∃ snap ∈ a.snapshots, snap.instruction = i ∧ Covers env R snap.states snap.activeLocals s

variable {a : Analysis}

lemma Recorded.mono {b : Analysis} {i : InstId} (h : Recorded env R a i s) (hx : Extends a b) :
    Recorded env R b i s := by
  obtain ⟨snap, hs, hi, hc⟩ := h
  exact ⟨snap, hx.snapshots.subset hs, hi, hc⟩

/-- More states on the edges cover more. -/
lemma edgePost_mono (hI : Interprets env M R covered) {K : LocalId → Prop}
    {flows flows' : List LoopFlow} (hg : List.Forall₂ (Grows K) flows flows') {e : Exit}
    (h : edgePost env R act flows e s) : edgePost env R act flows' e s := by
  have key : ∀ (b : Bool) (k : Nat), EdgeCovers env R act flows b k s →
      EdgeCovers env R act flows' b k s := by
    intro b k hk f' hf'
    obtain ⟨f, hf, hgrow⟩ : ∃ f, flows[k]? = some f ∧ Grows K f f' := by
      obtain ⟨hlen, hget⟩ := List.forall₂_iff_get.1 hg
      obtain ⟨hlt, rfl⟩ := List.getElem?_eq_some_iff.1 hf'
      exact ⟨flows.get ⟨k, hlen ▸ hlt⟩, by simp [hlen, hlt], hget k (hlen ▸ hlt) hlt⟩
    obtain ⟨S, hS, hc⟩ := hk f hf
    obtain ⟨Ts, hT⟩ := hgrow.edge b S hS
    refine ⟨_, hT, ?_⟩
    rw [hgrow.depth b]
    exact hc.foldl_merge hI Ts
  cases e with
  | brk k => exact key true k h
  | cont k => exact key false k h
  | _ => trivial

/-- Edges to loops around do not see the locals that became active since. -/
lemma edgePost_restrict {flows : List LoopFlow} (hp : act <+: act')
    (hd : ∀ f ∈ flows, ∀ k, f.localDepth k ≤ act.length) {e : Exit}
    (h : edgePost env R act' flows e s) : edgePost env R act flows e s := by
  have key : ∀ (b : Bool) (k : Nat), EdgeCovers env R act' flows b k s →
      EdgeCovers env R act flows b k s := by
    intro b k hk f hf
    obtain ⟨S, hS, hc⟩ := hk f hf
    obtain ⟨rest, rfl⟩ := hp
    refine ⟨S, hS, ?_⟩
    rwa [List.take_append_of_le_length (hd f (List.mem_of_getElem? hf) b)] at hc
  cases e with
  | brk k => exact key true k h
  | cont k => exact key false k h
  | _ => trivial

variable {r : Bool}

/-- **The runs of nested code, seen from the code around it.** The analysis of the nested code went
from `a₁` to `a₂`, that of the code around it started in `a` and went on to `a₃`. -/
lemma Triple.around (hI : Interprets env M R covered) {L : List LocalId} {a₁ a₂ a₃ : Analysis}
    (ha : Inv env a) (h₁ : Frame L a a₁) (h₂ : Frame L a₁ a₂) (h₃ : Extends a₂ a₃)
    {P J : σ → Prop} {f : Frag}
    (h : Triple M (Recorded env R a₂) P f (flowPost env R a₁.activeLocals r a₂))
    (hJ : ∀ s, r = true → Covers env R a₂.states a₂.activeLocals s → J s) :
    Triple M (Recorded env R a₃) P f (thenPost J (edgePost env R a.activeLocals a₃.loopFlows)) := by
  refine h.imp (fun _ hs => hs) (fun i s hs => hs.mono h₃) fun e s hs => ?_
  refine thenPost_imp hs (fun hs => hJ s hs.1 hs.2) fun e he => ?_
  exact edgePost_mono hI h₃.flows
    (edgePost_restrict h₁.active (fun f hf k => (h₁.trans h₂).depth ha hf k) he)

/-! ## Nested code -/

/-- The fragment that the analysis of a block is about. -/
def Block.frag (lexical : Bool) (b : Block) : Frag :=
  if lexical then .block b else .insts b.insts

/-- What the analysis of nested blocks is known to say of their runs. -/
def RecSound (env : PlaceEnv) (M : Machine σ) (R : LocalId → RootState → σ → Prop)
    (covered : Inst → Bool) (rec : BlockAnalyzer) : Prop :=
  ∀ {b : Block} {lexical : Bool} {a a' : Analysis} {r : Bool} {W : List LocalId},
    rec b lexical a = .ok (r, a') → (∀ i ∈ b.instructions, covered i = true) → Inv env a →
    (∀ x, a.Knows x → x ∈ W) → declaresFirst W b.instructions = true →
    a'.diagnostics = a.diagnostics →
    Triple M (Recorded env R a') (Covers env R a.states a.activeLocals) (b.frag lexical)
      (flowPost env R a.activeLocals r a')

variable {rec : BlockAnalyzer} {L W : List LocalId}

/-- No diagnostic at the end means none in the middle. -/
lemma eq_of_between {α : Type} {l m n : List α} (h₁ : l <+: m) (h₂ : m <+: n) (h : n = l) :
    m = l ∧ n = m := by
  subst h
  have := h₁.eq_of_length_le h₂.length_le
  exact ⟨this.symm, this⟩

variable {before : Analysis}

/-- A path that starts with facts about no more locals knows no more. -/
lemma knows_of_restart (hS : ∀ x, S.has x = true → before.Knows x ∨ x ∈ L) {x : LocalId}
    (h : (a.restart S before.activeLocals before.cleanupRegistrations).Knows x) :
    before.Knows x ∨ x ∈ L := by
  cases h with
  | states hx => exact hS x hx
  | registered hr hx => exact Or.inl (.registered hr hx)

/-- The states joined at the end of a branch. -/
def joinPost (env : PlaceEnv) (R : LocalId → RootState → σ → Prop) (act : List LocalId)
    (merged : Option StateMap) (s : σ) : Prop :=
  ∃ U, merged = some U ∧ Covers env R U act s

/-- The join with the end of a path that is reached. -/
lemma joinPost_mergeOptional (hI : Interprets env M R covered) {merged : Option StateMap}
    (hm : JoinOk env L before merged) (hT : MapOk env T before.activeLocals) :
    (Covers env R T before.activeLocals s →
      joinPost env R before.activeLocals (some (.mergeOptional merged T)) s) ∧
    (joinPost env R before.activeLocals merged s →
      joinPost env R before.activeLocals (some (.mergeOptional merged T)) s) := by
  cases merged with
  | none => exact ⟨fun h => ⟨T, rfl, h⟩, fun ⟨U, hU, _⟩ => by simp at hU⟩
  | some V =>
    refine ⟨fun h => ⟨_, rfl, h.merge_right hI (hm V rfl).map hT⟩, ?_⟩
    rintro ⟨U, hU, h⟩
    obtain rfl := Option.some.inj hU
    exact ⟨_, rfl, h.merge_left hI T⟩

section

variable (hI : Interprets env M R covered) (hframe : RecFrame env rec)
  (hrec : RecSound env M R covered rec)
include hI hframe hrec

/-- The arms of an `If`: each one is covered, and so is a state that was covered before them. -/
lemma sound_analyzeIfArms {before : Analysis} (hb : Inv env before) {arms : List Block}
    (hcov : ∀ i ∈ blocksInstructions arms, covered i = true)
    (hls : ∀ x ∈ mentioned (blocksInstructions arms), x ∈ L)
    (hknows : ∀ x, before.Knows x → x ∈ W)
    (hdecl : declaresFirst W (blocksInstructions arms) = true) {a a' : Analysis}
    {merged merged' : Option StateMap}
    (h : analyzeIfArms rec before arms merged a = .ok (merged', a')) (ha : Inv env a)
    (hf : Frame L before a) (hm : JoinOk env L before merged)
    (hdiag : a'.diagnostics = a.diagnostics) :
    (∀ b ∈ arms, Triple M (Recorded env R a') (Covers env R before.states before.activeLocals)
      (.block b) (thenPost (joinPost env R before.activeLocals merged')
        (edgePost env R before.activeLocals a'.loopFlows))) ∧
    ∀ s, joinPost env R before.activeLocals merged s →
      joinPost env R before.activeLocals merged' s := by
  induction arms generalizing a merged W with
  | nil =>
    obtain ⟨rfl, rfl⟩ := analyzeIfArms_nil_ok.1 h
    exact ⟨by simp, fun _ hs => hs⟩
  | cons b arms ih =>
    simp only [blocksInstructions, List.mem_append] at hcov
    simp only [blocksInstructions, mentioned_append, List.mem_append] at hls
    rw [blocksInstructions, declaresFirst_append] at hdecl
    obtain ⟨falls, a₁, h₁, h₂⟩ := analyzeIfArms_cons_ok.1 h
    have hquiet : ∀ i, covered i = true → i.quiet = true := hI.quiet
    -- the first arm
    have hr := hb.restart ha hf hb.states
    have hfr := hf.restart (S := before.states) fun x hx => Or.inl (.states hx)
    obtain ⟨hi₁, hf₁, hact⟩ := hframe h₁ (fun i hi => hquiet i (hcov i (Or.inl hi))) hr
    have hf₁' := hfr.trans (hf₁.mono fun x hx => hls x (Or.inl hx))
    have hm₁ : JoinOk env L before
        (if falls then some (.mergeOptional merged a₁.states) else merged) := by
      cases falls with
      | true => exact hm.join hi₁ hf₁' (hact rfl)
      | false => exact hm
    -- the other arms
    obtain ⟨-, -, -, hext⟩ := frame_analyzeIfArms hframe hb
      (fun i hi => hquiet i (hcov i (Or.inr hi))) (fun x hx => hls x (Or.inr hx)) h₂ hi₁ hf₁' hm₁
    obtain ⟨hd₁, hd₂⟩ := eq_of_between ((extends_restart a _ _ _).trans hf₁.extends).diagnostics
      hext.diagnostics hdiag
    obtain ⟨hrest, hkeep⟩ := ih (fun i hi => hcov i (Or.inr hi)) (fun x hx => hls x (Or.inr hx))
      (fun x hx => List.mem_append_left _ (hknows x hx)) hdecl.2 h₂ hi₁ hf₁' hm₁ hd₂
    have hmap : MapOk env a₁.states before.activeLocals := by
      obtain ⟨hsh, hhas⟩ := hi₁.states
      exact ⟨hsh, fun l hl => hhas l (hf₁'.active.subset hl)⟩
    refine ⟨fun b' hb' => ?_, fun s hs => hkeep s ?_⟩
    · rcases List.mem_cons.1 hb' with rfl | hb'
      · have hone := hrec h₁ (fun i hi => hcov i (Or.inl hi)) hr
          (fun x hx => hknows x (by
            simpa using knows_of_restart (L := []) (fun y hy => Or.inl (.states hy)) hx))
          hdecl.1 hd₁
        refine Triple.around hI hb hfr (hf₁.mono fun x hx => hls x (Or.inl hx)) hext hone
          fun s hfalls hs => hkeep s ?_
        subst hfalls
        have hact' : a₁.activeLocals = before.activeLocals := hact rfl
        exact (joinPost_mergeOptional hI hm hmap).1 (hact' ▸ hs)
      · exact hrest b' hb'
    · cases falls with
      | true => exact (joinPost_mergeOptional hI hm hmap).2 hs
      | false => exact hs

end

/-- The states in which an arm is selected are covered when it is entered. -/
lemma covers_enterArm (hI : Interprets env M R covered) {v : Value} (hplain : v.plain = true)
    (hb : Inv env before) (ha : Inv env a) {k : Int} (hsel : M.selects v s k)
    (h : Covers env R a.states act s) :
    Covers env R (a.enterArm env v (before.boundValue v) k).states act s := by
  have hbound : (before.boundValue v).plain = true := plain_boundValueFrom hb.bound hplain
  rw [enterArm_eq hbound ha.facts]
  split
  · exact h
  · rename_i hk
    unfold narrow
    split
    · rename_i p hp
      intro l hl
      simp only [Analysis.modifyRoot, StateMap.root_modifyRoot]
      split
      · rename_i hlp
        subst hlp
        exact hI.arm hp rfl hsel (by omega) (h _ hl)
      · exact h l hl
    · exact h

section

variable (hI : Interprets env M R covered) (hframe : RecFrame env rec)
  (hrec : RecSound env M R covered rec)
include hI hframe hrec

/-- The arms of a `Switch`: each one is covered where it may be selected. -/
lemma sound_analyzeSwitchArms {before : Analysis} (hb : Inv env before) {v : Value}
    (hv : ∀ x ∈ v.locals, x ∈ L) (hseen : ∀ x ∈ v.locals, x ∈ W) (hplain : v.plain = true)
    {arms : List (Int × Block)} (hcov : ∀ i ∈ armsInstructions arms, covered i = true)
    (hls : ∀ x ∈ mentioned (armsInstructions arms), x ∈ L)
    (hknows : ∀ x, before.Knows x → x ∈ W)
    (hdecl : declaresFirst W (armsInstructions arms) = true) {a a' : Analysis}
    {merged merged' : Option StateMap}
    (h : analyzeSwitchArms env rec before v (before.boundValue v) arms merged a =
      .ok (merged', a')) (ha : Inv env a)
    (hf : Frame L before a) (hm : JoinOk env L before merged)
    (hdiag : a'.diagnostics = a.diagnostics) :
    (∀ arm ∈ arms, Triple M (Recorded env R a')
      (fun s => Covers env R before.states before.activeLocals s ∧ M.selects v s arm.1)
      (.block arm.2) (thenPost (joinPost env R before.activeLocals merged')
        (edgePost env R before.activeLocals a'.loopFlows))) ∧
    ∀ s, joinPost env R before.activeLocals merged s →
      joinPost env R before.activeLocals merged' s := by
  induction arms generalizing a merged W with
  | nil =>
    obtain ⟨rfl, rfl⟩ := analyzeSwitchArms_nil_ok.1 h
    exact ⟨by simp, fun _ hs => hs⟩
  | cons arm arms ih =>
    obtain ⟨k, b⟩ := arm
    simp only [armsInstructions, List.mem_append] at hcov
    simp only [armsInstructions, mentioned_append, List.mem_append] at hls
    rw [armsInstructions, declaresFirst_append] at hdecl
    obtain ⟨falls, a₁, h₁, h₂⟩ := analyzeSwitchArms_cons_ok.1 h
    have hquiet : ∀ i, covered i = true → i.quiet = true := hI.quiet
    -- the first arm
    have hr := hb.restart ha hf hb.states
    obtain ⟨ht, hact₀⟩ := touches_enterArm hv hplain k hb hr
    have hfr := (hf.restart (S := before.states) fun x hx => Or.inl (.states hx)).trans ht.frame
    obtain ⟨hi₁, hf₁, hact⟩ := hframe h₁ (fun i hi => hquiet i (hcov i (Or.inl hi))) (ht.inv hr)
    have hf₁' := hfr.trans (hf₁.mono fun x hx => hls x (Or.inl hx))
    have hm₁ : JoinOk env L before
        (if falls then some (.mergeOptional merged a₁.states) else merged) := by
      cases falls with
      | true => exact hm.join hi₁ hf₁' ((hact rfl).trans hact₀)
      | false => exact hm
    -- the other arms
    obtain ⟨-, -, -, hext⟩ := frame_analyzeSwitchArms hframe hb hv hplain
      (fun i hi => hquiet i (hcov i (Or.inr hi))) (fun x hx => hls x (Or.inr hx)) h₂ hi₁ hf₁' hm₁
    obtain ⟨hd₀, hd₁⟩ := eq_of_between ht.diagnostics (hf₁.diagnostics.trans hext.diagnostics)
      hdiag
    obtain ⟨hd₁, hd₂⟩ := eq_of_between hf₁.diagnostics hext.diagnostics hd₁
    obtain ⟨hrest, hkeep⟩ := ih (fun x hx => List.mem_append_left _ (hseen x hx))
      (fun i hi => hcov i (Or.inr hi)) (fun x hx => hls x (Or.inr hx))
      (fun x hx => List.mem_append_left _ (hknows x hx)) hdecl.2 h₂ hi₁ hf₁' hm₁ hd₂
    have hmap : MapOk env a₁.states before.activeLocals := by
      obtain ⟨hsh, hhas⟩ := hi₁.states
      exact ⟨hsh, fun l hl => hhas l (hf₁'.active.subset hl)⟩
    refine ⟨fun arm' harm' => ?_, fun s hs => hkeep s ?_⟩
    · rcases List.mem_cons.1 harm' with rfl | harm'
      · obtain ⟨ht', -⟩ := touches_enterArm (L := v.locals) (fun x hx => hx) hplain k
          hb hr
        have hone := hrec h₁ (fun i hi => hcov i (Or.inl hi)) (ht.inv hr)
          (fun x hx => by
            rcases ht'.frame.knows x hx with hx | hx
            · exact hknows x (by
                simpa using knows_of_restart (L := []) (fun y hy => Or.inl (.states hy)) hx)
            · exact hseen x hx) hdecl.1 hd₁
        refine (Triple.around hI hb hfr (hf₁.mono fun x hx => hls x (Or.inl hx)) hext hone
          fun s hfalls hs => hkeep s ?_).imp (fun s hs => ?_) (fun _ _ h => h) fun _ _ h => h
        · subst hfalls
          have hact' : a₁.activeLocals = before.activeLocals := (hact rfl).trans hact₀
          exact (joinPost_mergeOptional hI hm hmap).1 (hact' ▸ hs)
        · rw [hact₀]
          exact covers_enterArm hI hplain hb hr hs.2 hs.1
      · exact hrest arm' harm'
    · cases falls with
      | true => exact (joinPost_mergeOptional hI hm hmap).2 hs
      | false => exact hs

end

/-! ## Edges -/

/-- Cleaning up locals changes no facts. -/
lemma root_cleanupPlan {regs : List CleanupRegistration}
    (hregs : ∀ r ∈ regs, ∃ l, r.local? = some l) {plan : PlaceCleanupPlan} {b : Analysis}
    (h : cleanupPlan env rec regs a = .ok (plan, b)) (l : LocalId) :
    b.states.root env.sem l = a.states.root env.sem l := by
  induction regs generalizing a plan with
  | nil =>
    obtain ⟨-, rfl⟩ := cleanupPlan_nil_ok.1 h
    rfl
  | cons r regs ih =>
    obtain ⟨m, hm⟩ := hregs r List.mem_cons_self
    obtain ⟨rest, h, -⟩ := (cleanupPlan_local_ok hm).1 h
    rw [ih (fun r' hr' => hregs r' (List.mem_cons_of_mem _ hr')) h]
    unfold appendLocalCleanup
    split
    · exact StateMap.root_ensureRoot
    · rfl

/-- The states on an edge cover the state in which it is taken. -/
lemma sound_analyzeEdge (hI : Interprets env M R covered) {i : InstId} {breaks : Bool} {k : Nat}
    {a' : Analysis} (h : analyzeEdge env rec i breaks k a = .ok (r, a')) (ha : Inv env a)
    (hs : Covers env R a.states a.activeLocals s) :
    EdgeCovers env R a.activeLocals a'.loopFlows breaks k s := by
  intro f hf
  cases hk : a.loopFlows[k]? with
  | none =>
    obtain ⟨-, rfl⟩ := (analyzeEdge_missing hk).1 h
    simp [hk] at hf
  | some flow =>
    obtain ⟨plan, a₁, hplan, -, rfl⟩ := (analyzeEdge_ok hk).1 h
    have hregs : ∀ r ∈ (a.cleanupRegistrations.drop (flow.cleanupDepth breaks)).reverse,
        r ∈ a.cleanupRegistrations := fun r hr => List.mem_of_mem_drop (List.mem_reverse.1 hr)
    obtain ⟨hi, -, hact, -, -, ht⟩ := frame_cleanupPlan ha hregs hplan
    have hk₁ : a₁.loopFlows[k]? = some flow := by rw [ht.flows, hk]
    have hflow := hi.flows flow (List.mem_of_getElem? hk₁)
    simp only [List.getElem?_modify_eq, hk₁, Option.map_eq_map, Option.map_some,
      Option.some.injEq] at hf
    subst hf
    have hcov : Covers env R (a₁.statesAtDepth (flow.localDepth breaks))
        (a.activeLocals.take (flow.localDepth breaks)) s := by
      have h₁ : Covers env R a₁.states a₁.activeLocals s := by
        rw [hact]
        exact hs.congr fun l _ => root_cleanupPlan (fun r hr => ha.locals r (hregs r hr)) hplan l
      rw [← hact]
      exact h₁.eraseLocals hi.nodup _
    rw [addEdge_localDepth]
    refine ⟨.mergeOptional (flow.edge breaks) (a₁.statesAtDepth (flow.localDepth breaks)),
      by rw [addEdge_edge, if_pos rfl], ?_⟩
    cases hedge : flow.edge breaks with
    | none => exact hcov
    | some U =>
      have hU := hflow.edge breaks U hedge
      rw [hact] at hU
      refine hcov.merge_right hI hU ?_
      rw [← hact]
      exact hi.states.eraseLocals hi.nodup _

/-! ## Loops -/

section

variable (hI : Interprets env M R covered) (hframe : RecFrame env rec)
  (hrec : RecSound env M R covered rec)
include hI hframe hrec

/-- The body of a loop: its end and the continue edges lead to `K`, the break edges to `J`. -/
lemma sound_loopBody {before a a' a₃ : Analysis} {b : Block} {m k j : Nat} {r : Bool}
    (hcov : ∀ i ∈ b.instructions, covered i = true)
    (hls : ∀ x ∈ mentioned b.instructions, x ∈ L)
    (h : rec b true (a.pushFlow ⟨m, before.activeLocals.length, k, j, none, none⟩) = .ok (r, a'))
    (hm : m ≤ before.activeLocals.length) (hb : Inv env before) (ha : Inv env a)
    (hf : Frame L before a) (hknows : ∀ x, a.Knows x → x ∈ W)
    (hdecl : declaresFirst W b.instructions = true) (hdiag : a'.diagnostics = a.diagnostics)
    (hext : Extends a'.popFlow a₃) {J K : σ → Prop}
    (hK : ∀ s, r = true → Covers env R a'.states a'.activeLocals s → K s)
    (hcont : ∀ s S, a'.flow.continues = some S → Covers env R S before.activeLocals s → K s)
    (hJ : ∀ s S, a'.flow.breaks = some S → Covers env R S (before.activeLocals.take m) s → J s) :
    Triple M (Recorded env R a₃) (Covers env R a.states a.activeLocals) (.block b)
      (bodyPost K (thenPost J (edgePost env R before.activeLocals a₃.loopFlows))) := by
  have hquiet : ∀ i ∈ b.instructions, i.quiet = true := fun i hi => hI.quiet i (hcov i hi)
  have hlen : before.activeLocals.length ≤ a.activeLocals.length := hf.active.length_le
  have htake : ∀ n, n ≤ before.activeLocals.length →
      a.activeLocals.take n = before.activeLocals.take n := by
    intro n hn
    obtain ⟨rest, hrest⟩ := hf.active
    rw [← hrest, List.take_append_of_le_length hn]
  have hi₀ : Inv env (a.pushFlow ⟨m, before.activeLocals.length, k, j, none, none⟩) := by
    refine inv_pushFlow ha (fun e => by cases e <;> rfl) fun e => ?_
    cases e
    · exact hlen
    · exact hm.trans hlen
  obtain ⟨-, hf', -⟩ := hframe h hquiet hi₀
  obtain ⟨-, hpop, -, -, -, -⟩ := frame_loopBody hframe hquiet hls h hm ha hf
  obtain ⟨f, rest, hgrow, -, heq⟩ := List.forall₂_cons_left_iff.1 hf'.flows
  have hflow : a'.flow = f := by simp [Analysis.flow, heq]
  have hone := hrec h hcov hi₀ (fun x hx => hknows x (by
    cases hx with
    | states hx => exact .states hx
    | registered hr hx => exact .registered hr hx)) hdecl hdiag
  -- an edge to this loop has the states that the analysis joined for it
  have hinner : ∀ (e : Bool) (s : σ), EdgeCovers env R a.activeLocals a'.loopFlows e 0 s →
      ∃ S, a'.flow.edge e = some S ∧
        Covers env R S (before.activeLocals.take (f.localDepth e)) s := by
    intro e s hs
    obtain ⟨S, hS, hc⟩ := hs f (by simp [heq])
    refine ⟨S, hflow ▸ hS, ?_⟩
    rw [htake] at hc
    · exact hc
    · rw [hgrow.depth e]
      cases e
      · exact le_refl _
      · exact hm
  -- the other edges have one loop less to leave
  have houter : ∀ (e : Bool) (n : Nat) (s : σ),
      EdgeCovers env R a.activeLocals a'.loopFlows e (n + 1) s →
      EdgeCovers env R a.activeLocals a'.popFlow.loopFlows e n s := by
    intro e n s hs g hg
    exact hs g (by simpa [popFlow, heq] using hg)
  have hedge : ∀ {e : Exit} {s : σ}, edgePost env R a.activeLocals a'.popFlow.loopFlows e s →
      edgePost env R before.activeLocals a₃.loopFlows e s := by
    intro e s hs
    exact edgePost_mono hI hext.flows
      (edgePost_restrict hf.active (fun g hg n => hpop.depth hb hg n) hs)
  refine hone.imp (fun _ hs => hs) (fun i s hs => ?_) fun e s hs => ?_
  · exact Recorded.mono (a := a'.popFlow) hs hext
  · cases e with
    | normal => exact hK s hs.1 hs.2
    | cont n =>
      cases n with
      | zero =>
        obtain ⟨S, hS, hc⟩ := hinner false s hs
        rw [hgrow.depth false] at hc
        exact hcont s S hS (by simpa [LoopFlow.localDepth] using hc)
      | succ n => exact hedge (e := .cont n) (houter false n s hs)
    | brk n =>
      cases n with
      | zero =>
        obtain ⟨S, hS, hc⟩ := hinner true s hs
        rw [hgrow.depth true] at hc
        exact hJ s S hS (by simpa [LoopFlow.localDepth] using hc)
      | succ n => exact hedge (e := .brk n) (houter true n s hs)
    | ret => trivial
    | cut => trivial

end

/-- The states at the end of the body and on the continue edges of a loop, from which its next part
starts. -/
lemma covers_entry (hI : Interprets env M R covered) (hi : Inv env a.popFlow)
    (hf : Frame L before a.popFlow) (hc : JoinOk env L before a.flow.continues) :
    (∀ s, r = true → Covers env R a.states a.activeLocals s →
      joinPost env R before.activeLocals
        (joinOptional (if r then some a.states else none) a.flow.continues) s) ∧
    ∀ s S, a.flow.continues = some S → Covers env R S before.activeLocals s →
      joinPost env R before.activeLocals
        (joinOptional (if r then some a.states else none) a.flow.continues) s := by
  have hmap : MapOk env a.states before.activeLocals := (PathOk.of_frame hi hf).map
  have hpre : before.activeLocals <+: a.activeLocals := hf.active
  constructor
  · rintro s rfl hs
    have hs' := hs.restrict hpre
    cases hcont : a.flow.continues with
    | none => exact ⟨_, rfl, hs'⟩
    | some S => exact ⟨_, rfl, hs'.merge_left hI S⟩
  · intro s S hS hs
    rw [hS]
    cases r with
    | true => exact ⟨_, rfl, hs.merge_right hI hmap (hc S hS).map⟩
    | false => exact ⟨_, rfl, hs⟩

section

variable (hI : Interprets env M R covered) (hframe : RecFrame env rec)
  (hrec : RecSound env M R covered rec)
include hI hframe hrec

variable {before a a' : Analysis} {c : Block} {header next : StateMap}

/-- The last pass over a `While` covers every pass of a run. -/
lemma sound_whilePass {b : Block} {out : StateMap} (hb : Inv env before)
    (hcc : ∀ i ∈ c.instructions, covered i = true) (hcb : ∀ i ∈ b.instructions, covered i = true)
    (hlc : ∀ x ∈ mentioned c.instructions, x ∈ L) (hlb : ∀ x ∈ mentioned b.instructions, x ∈ L)
    (hknows : ∀ x, before.Knows x → x ∈ W)
    (hdecl : declaresFirst W (c.instructions ++ b.instructions) = true)
    (hs : PassStart env L before header a)
    (h : whilePass rec c b before header a = .ok (next, out, a'))
    (hsame : header.same next = true) (hdiag : a'.diagnostics = before.diagnostics) :
    Triple M (Recorded env R a') (Covers env R before.states before.activeLocals) (.whileFrom c b)
      (thenPost (Covers env R out before.activeLocals)
        (edgePost env R before.activeLocals a'.loopFlows)) := by
  have hquiet : ∀ i, covered i = true → i.quiet = true := hI.quiet
  obtain ⟨-, -, hnext, -⟩ := frame_whilePass hframe hb (fun i hi => hquiet i (hcc i hi))
    (fun i hi => hquiet i (hcb i hi)) hlc hlb hs h
  obtain ⟨x, a₁, falls, a₂, h₁, h₂, rfl, rfl, rfl⟩ := whilePass_ok.1 h
  rw [declaresFirst_append] at hdecl
  obtain ⟨hi₀, hf₀⟩ := hs.restart hb
  obtain ⟨hi₁, hf₁, -⟩ := hframe h₁ (fun i hi => hquiet i (hcc i hi)) hi₀
  have hf₁' := hf₀.trans (hf₁.mono hlc)
  obtain ⟨hi₂, hf₂, hact, hcont, hbreaks, hext⟩ := frame_loopBody hframe
    (fun i hi => hquiet i (hcb i hi)) hlb h₂ (le_refl _) hi₁ hf₁'
  have hstart : ∀ x, (a.restart header before.activeLocals before.cleanupRegistrations).Knows x →
      x ∈ W := fun x hx => hknows x (by
    simpa using knows_of_restart (L := []) (fun y hy => Or.inl (.states (hs.header.keys y hy))) hx)
  obtain ⟨hd₁, hd₂⟩ := eq_of_between hf₁.diagnostics hext.diagnostics
    (hdiag.trans hs.diagnostics.symm)
  -- the condition
  have hcond := Triple.around hI hb hf₀ (hf₁.mono hlc) hext (J := Covers env R a₁.states
      a₁.activeLocals) (hrec h₁ hcc hi₀ hstart hdecl.1 hd₁) fun s _ hs => hs
  -- the body
  have hmap₂ : MapOk env a₂.states before.activeLocals := (PathOk.of_frame hi₂ hf₂).map
  have hpre₂ : before.activeLocals <+: a₂.activeLocals := hf₂.active
  have hback : ∀ s, Covers env R (joinEdge (if falls then before.states.merge a₂.states
      else before.states) a₂.flow.continues) before.activeLocals s →
      Covers env R header before.activeLocals s := fun s hs' =>
    hs'.same hI hs.header.map hnext.map hsame
  have hmerge : MapOk env (if falls then before.states.merge a₂.states else before.states)
      before.activeLocals := by
    cases falls with
    | true => exact hb.states.merge
    | false => exact hb.states
  have hbody := sound_loopBody hI hframe hrec hcb hlb h₂ (le_refl _) hb hi₁ hf₁'
    (W := W ++ mentioned c.instructions) (fun x hx => by
      rcases hf₁.knows x hx with hx | hx
      · exact List.mem_append_left _ (hstart x hx)
      · exact List.mem_append_right _ hx) hdecl.2 hd₂ (.refl _)
    (K := Covers env R header before.activeLocals)
    (J := Covers env R (joinEdge a₁.states a₂.flow.breaks) before.activeLocals)
    (fun s hfalls hs' => by
      subst hfalls
      exact hback s (((hs'.restrict hpre₂).merge_right hI hb.states hmap₂).joinEdge_left hI _))
    (fun s S hS hs' => by
      refine hback s ?_
      rw [hS]
      exact hs'.merge_right hI hmerge (hcont S hS).map)
    (fun s S hS hs' => by
      rw [List.take_length] at hs'
      rw [hS]
      have hmapS := (hbreaks S hS).1
      rw [List.take_length] at hmapS
      exact hs'.merge_right hI (PathOk.of_frame hi₁ hf₁').map hmapS)
  have hloop : Triple M (Recorded env R a₂.popFlow) (Covers env R header before.activeLocals)
      (.whileFrom c b) (thenPost (Covers env R (joinEdge a₁.states a₂.flow.breaks)
        before.activeLocals) (edgePost env R before.activeLocals a₂.popFlow.loopFlows)) := by
    refine Triple.whileFrom (J := Covers env R a₁.states a₁.activeLocals) (fun _ _ => trivial) ?_
      hbody fun s hs' => ?_
    · rw [thenPost_thenPost]
      exact hcond
    · exact (hs'.restrict hf₁'.active).joinEdge_left hI _
  refine hloop.imp (fun s hs' => hback s (Covers.joinEdge_left hI ?_ _)) (fun _ _ hs' => hs')
    fun _ _ hs' => hs'
  cases falls with
  | true => exact hs'.merge_left hI _
  | false => exact hs'

/-- A clause, from the states on the edges into it. -/
lemma sound_analyzeClause {entry : Option StateMap} (hb : Inv env before)
    (hcov : ∀ i ∈ c.instructions, covered i = true) (hlc : ∀ x ∈ mentioned c.instructions, x ∈ L)
    (h : analyzeClause rec c entry before a = .ok a') (ha : Inv env a) (hf : Frame L before a)
    (hentry : JoinOk env L before entry) (hknows : ∀ x, before.Knows x → x ∈ W)
    (hseen : ∀ S, entry = some S → ∀ x, S.has x = true → x ∈ W)
    (hdecl : declaresFirst W c.instructions = true) (hdiag : a'.diagnostics = a.diagnostics) :
    Triple M (Recorded env R a') (joinPost env R before.activeLocals entry) (.insts c.insts)
      (thenPost (fun s => entry.isSome = true ∧ Covers env R a'.states a'.activeLocals s)
        (edgePost env R before.activeLocals a'.loopFlows)) := by
  cases entry with
  | none =>
    rintro s t e s' ⟨U, hU, -⟩
    simp at hU
  | some S =>
    obtain ⟨x, h⟩ := analyzeClause_some_ok.1 h
    have hi₀ := hb.restart ha hf (hentry S rfl).map
    have hf₀ := hf.restart (hentry S rfl).known
    obtain ⟨-, hf₁, -⟩ := hframe h (fun i hi => hI.quiet i (hcov i hi)) hi₀
    have hstart : ∀ x, (a.restart S before.activeLocals before.cleanupRegistrations).Knows x →
        x ∈ W := by
      intro x hx
      cases hx with
      | states hx => exact hseen S rfl x hx
      | registered hr hx => exact hknows x (.registered hr hx)
    have hone := hrec h hcov hi₀ hstart hdecl hdiag
    refine (Triple.around hI hb hf₀ (hf₁.mono hlc) (.refl _) hone fun s _ hs => ⟨rfl, hs⟩).imp
      (fun s hs => ?_) (fun _ _ hs => hs) fun _ _ hs => hs
    obtain ⟨U, hU, hs⟩ := hs
    obtain rfl := Option.some.inj hU
    exact hs

/-- The last pass over a `DoWhile` covers every pass of a run. -/
lemma sound_doWhilePass {b : Block} {out : Option StateMap} (hb : Inv env before)
    (hcc : ∀ i ∈ c.instructions, covered i = true) (hcb : ∀ i ∈ b.instructions, covered i = true)
    (hlc : ∀ x ∈ mentioned c.instructions, x ∈ L) (hlb : ∀ x ∈ mentioned b.instructions, x ∈ L)
    (hknows : ∀ x, before.Knows x → x ∈ W)
    (hdecl : declaresFirst W (b.instructions ++ c.instructions) = true)
    (hs : PassStart env L before header a)
    (h : doWhilePass rec c b before header a = .ok (next, out, a'))
    (hsame : header.same next = true) (hdiag : a'.diagnostics = before.diagnostics) :
    Triple M (Recorded env R a') (Covers env R before.states before.activeLocals) (.doFrom c b)
      (thenPost (joinPost env R before.activeLocals out)
        (edgePost env R before.activeLocals a'.loopFlows)) := by
  have hquiet : ∀ i, covered i = true → i.quiet = true := hI.quiet
  obtain ⟨-, -, hnext, -⟩ := frame_doWhilePass hframe hb (fun i hi => hquiet i (hcc i hi))
    (fun i hi => hquiet i (hcb i hi)) hlc hlb hs h
  obtain ⟨falls, a₁, h₁, h₂, rfl, rfl⟩ := doWhilePass_ok.1 h
  rw [declaresFirst_append] at hdecl
  obtain ⟨hi₀, hf₀⟩ := hs.restart hb
  have hstart : ∀ x, (a.restart header before.activeLocals before.cleanupRegistrations).Knows x →
      x ∈ W := fun x hx => hknows x (by
    simpa using knows_of_restart (L := []) (fun y hy => Or.inl (.states (hs.header.keys y hy))) hx)
  obtain ⟨hi₁, hf₁, hact, hcont, hbreaks, hext⟩ := frame_loopBody hframe
    (fun i hi => hquiet i (hcb i hi)) hlb h₁ (le_refl _) hi₀ hf₀
  have hentry := joinOk_entry (r := falls) hi₁ hf₁ hcont
  obtain ⟨hi₂, hf₂, hext₂⟩ := frame_analyzeClause hframe hb (fun i hi => hquiet i (hcc i hi)) hlc h₂
    hi₁ hf₁ hentry
  -- seen from the start of the pass, the edges into the condition know the locals of the body
  obtain ⟨hi₁', hf₁', -, hcont', -⟩ := frame_loopBody hframe
    (o := a.restart header before.activeLocals before.cleanupRegistrations)
    (L := mentioned b.instructions) (fun i hi => hquiet i (hcb i hi)) (fun _ hx => hx) h₁
    (le_refl _) hi₀ (.refl _)
  have hentry' := joinOk_entry (r := falls) hi₁' hf₁' hcont'
  obtain ⟨hd₁, hd₂⟩ := eq_of_between hext.diagnostics hext₂.diagnostics
    (hdiag.trans hs.diagnostics.symm)
  have hcond := sound_analyzeClause hI hframe hrec hb hcc hlc h₂ hi₁ hf₁ hentry
    (W := W ++ mentioned b.instructions)
    (fun x hx => List.mem_append_left _ (hknows x hx)) (fun S hS x hx => by
      rcases (hentry' S hS).known x hx with hx | hx
      · exact List.mem_append_left _ (hstart x hx)
      · exact List.mem_append_right _ hx) hdecl.2 hd₂
  have hpre : before.activeLocals <+: a'.activeLocals := hf₂.active
  have hmap : MapOk env a'.states before.activeLocals := (PathOk.of_frame hi₂ hf₂).map
  obtain ⟨hnormal, hcontinue⟩ := covers_entry hI (r := falls) hi₁ hf₁ hcont
  have hbody := sound_loopBody hI hframe hrec hcb hlb h₁ (le_refl _) hb hi₀ hf₀ hstart hdecl.1 hd₁
    hext₂ (K := joinPost env R before.activeLocals
      (joinOptional (if falls then some a₁.states else none) a₁.flow.continues))
    (J := joinPost env R before.activeLocals (joinOptional
      ((joinOptional (if falls then some a₁.states else none) a₁.flow.continues).map
        fun _ => a'.states) a₁.flow.breaks)) hnormal hcontinue
    (fun s S hS hs' => by
      rw [List.take_length] at hs'
      have hmapS := (hbreaks S hS).1
      rw [List.take_length] at hmapS
      rw [hS]
      cases (joinOptional (if falls then some a₁.states else none) a₁.flow.continues) with
      | none => exact ⟨_, rfl, hs'⟩
      | some U => exact ⟨_, rfl, hs'.merge_right hI hmap hmapS⟩)
  refine Triple.imp (P := Covers env R header before.activeLocals) (Triple.doFrom
    (fun _ _ => trivial) hbody (J := fun s =>
      (joinOptional (if falls then some a₁.states else none) a₁.flow.continues).isSome = true ∧
        Covers env R a'.states a'.activeLocals s) ?_ (fun s hs' => ?_) fun s hs' => ?_)
    (fun s hs' => Covers.same hI hs.header.map hnext.map hsame (hs'.joinEdge_left hI _))
    (fun _ _ hs' => hs') fun _ _ hs' => hs'
  · rw [thenPost_thenPost]
    exact hcond
  · obtain ⟨U, hU⟩ := Option.isSome_iff_exists.1 hs'.1
    refine Covers.same hI hs.header.map hnext.map hsame ?_
    rw [hU]
    exact (hs'.2.restrict hpre).merge_right hI hb.states hmap
  · obtain ⟨U, hU⟩ := Option.isSome_iff_exists.1 hs'.1
    rw [hU]
    have hcov := hs'.2.restrict hpre
    cases hbr : a₁.flow.breaks with
    | none => exact ⟨_, rfl, hcov⟩
    | some S => exact ⟨_, rfl, hcov.merge_left hI S⟩

/-- The last pass over a `For` covers every pass of a run. The loop ends where its condition is left
and on the break edges, which unwind to the depth `m`. -/
lemma sound_forPass {i p b : Block} {exit : StateMap} {breaks : Option StateMap} {m k : Nat}
    (hb : Inv env before) (hcc : ∀ j ∈ c.instructions, covered j = true)
    (hcp : ∀ j ∈ p.instructions, covered j = true) (hcb : ∀ j ∈ b.instructions, covered j = true)
    (hlc : ∀ x ∈ mentioned c.instructions, x ∈ L) (hlp : ∀ x ∈ mentioned p.instructions, x ∈ L)
    (hlb : ∀ x ∈ mentioned b.instructions, x ∈ L) (hm : m ≤ before.activeLocals.length)
    (hknows : ∀ x, before.Knows x → x ∈ W)
    (hdecl : declaresFirst W (c.instructions ++ (b.instructions ++ p.instructions)) = true)
    (hs : PassStart env L before header a)
    (h : forPass rec c p b m k before header a = .ok (next, (exit, breaks), a'))
    (hsame : header.same next = true) (hdiag : a'.diagnostics = before.diagnostics) {J : σ → Prop}
    (hexit : ∀ s, Covers env R exit before.activeLocals s → J s)
    (hbreak : ∀ s S, breaks = some S → Covers env R S (before.activeLocals.take m) s → J s) :
    Triple M (Recorded env R a') (Covers env R before.states before.activeLocals) (.forFrom i c p b)
      (thenPost J (edgePost env R before.activeLocals a'.loopFlows)) := by
  have hquiet : ∀ i, covered i = true → i.quiet = true := hI.quiet
  obtain ⟨-, -, hnext, -⟩ := frame_forPass hframe hb (fun i hi => hquiet i (hcc i hi))
    (fun i hi => hquiet i (hcp i hi)) (fun i hi => hquiet i (hcb i hi)) hlc hlp hlb hm hs h
  obtain ⟨x, a₁, falls, a₂, h₁, h₂, h₃, rfl, rfl, rfl⟩ := forPass_ok.1 h
  rw [declaresFirst_append, declaresFirst_append] at hdecl
  obtain ⟨hi₀, hf₀⟩ := hs.restart hb
  have hstart : ∀ x, (a.restart header before.activeLocals before.cleanupRegistrations).Knows x →
      x ∈ W := fun x hx => hknows x (by
    simpa using knows_of_restart (L := []) (fun y hy => Or.inl (.states (hs.header.keys y hy))) hx)
  obtain ⟨hi₁, hf₁, -⟩ := hframe h₁ (fun i hi => hquiet i (hcc i hi)) hi₀
  have hf₁' := hf₀.trans (hf₁.mono hlc)
  have hknows₁ : ∀ x, a₁.Knows x → x ∈ W ++ mentioned c.instructions := fun x hx => by
    rcases hf₁.knows x hx with hx | hx
    · exact List.mem_append_left _ (hstart x hx)
    · exact List.mem_append_right _ hx
  obtain ⟨hi₂, hf₂, hact, hcont, hbreaks, hext⟩ := frame_loopBody hframe
    (fun i hi => hquiet i (hcb i hi)) hlb h₂ hm hi₁ hf₁'
  have hentry := joinOk_entry (r := falls) hi₂ hf₂ hcont
  obtain ⟨hi₃, hf₃, hext₃⟩ := frame_analyzeClause hframe hb (fun i hi => hquiet i (hcp i hi)) hlp h₃
    hi₂ hf₂ hentry
  -- seen from the start of the pass, the edges into the step know the locals before it
  obtain ⟨hi₂', hf₂', -, hcont', -⟩ := frame_loopBody hframe
    (o := a.restart header before.activeLocals before.cleanupRegistrations)
    (L := mentioned c.instructions ++ mentioned b.instructions)
    (fun i hi => hquiet i (hcb i hi)) (fun _ hx => List.mem_append_right _ hx) h₂ hm hi₁
    (hf₁.mono fun _ hx => List.mem_append_left _ hx)
  have hentry' := joinOk_entry (r := falls) hi₂' hf₂' hcont'
  obtain ⟨hd₁, hd₂⟩ := eq_of_between hf₁.diagnostics
    (hext.diagnostics.trans hext₃.diagnostics) (hdiag.trans hs.diagnostics.symm)
  obtain ⟨hd₂, hd₃⟩ := eq_of_between hext.diagnostics hext₃.diagnostics hd₂
  -- the condition
  have hcond := Triple.around hI hb hf₀ (hf₁.mono hlc) (hext.trans hext₃)
    (J := Covers env R a₁.states a₁.activeLocals) (hrec h₁ hcc hi₀ hstart hdecl.1 hd₁)
    fun s _ hs => hs
  -- the step
  have hstep := sound_analyzeClause hI hframe hrec hb hcp hlp h₃ hi₂ hf₂ hentry
    (W := W ++ mentioned c.instructions ++ mentioned b.instructions)
    (fun x hx => List.mem_append_left _ (List.mem_append_left _ (hknows x hx)))
    (fun S hS x hx => by
      rcases (hentry' S hS).known x hx with hx | hx
      · exact List.mem_append_left _ (List.mem_append_left _ (hstart x hx))
      · rw [List.append_assoc]
        exact List.mem_append_right _ hx) hdecl.2.2 hd₃
  -- the body
  obtain ⟨hnormal, hcontinue⟩ := covers_entry hI (r := falls) hi₂ hf₂ hcont
  have hbody := sound_loopBody hI hframe hrec hcb hlb h₂ hm hb hi₁ hf₁' hknows₁ hdecl.2.1 hd₂ hext₃
    hnormal hcontinue hbreak
  have hpre : before.activeLocals <+: a'.activeLocals := hf₃.active
  refine Triple.imp (P := Covers env R header before.activeLocals) (Triple.forFrom
    (fun _ _ => trivial) (J := Covers env R a₁.states a₁.activeLocals) ?_ hbody
    (Triple.imp (Q := thenPost _ _) hstep (fun _ hs => hs) (fun _ _ hs => hs) fun e s hs' => ?_)
    fun s s' hs' hleave => ?_)
    (fun s hs' => Covers.same hI hs.header.map hnext.map hsame (hs'.joinEdge_left hI _))
    (fun _ _ hs' => hs') fun _ _ hs' => hs'
  · rw [thenPost_thenPost]
    exact hcond
  · rw [thenPost_thenPost]
    refine thenPost_imp hs' (fun hs' => ?_) fun _ he => he
    obtain ⟨U, hU⟩ := Option.isSome_iff_exists.1 hs'.1
    refine Covers.same hI hs.header.map hnext.map hsame ?_
    rw [hU]
    exact (hs'.2.restrict hpre).merge_right hI hb.states (PathOk.of_frame hi₃ hf₃).map
  · obtain rfl := hI.leave hleave
    exact hexit _ (hs'.restrict hf₁'.active)

end

/-! ## The end of a scope -/

/-- The end of a scope keeps what is recorded and what it covers. -/
lemma sound_leaveScope {a' : Analysis} {b : Block} (ha : Inv env a) (hf : Frame L before a)
    (h : leaveScope env rec b before.activeLocals.length before.cleanupRegistrations.length r a =
      .ok a') :
    Extends a a' ∧ ∀ s, Covers env R a.states a.activeLocals s →
      Covers env R a'.states a'.activeLocals s := by
  obtain ⟨a₁, hclean, rfl⟩ := leaveScope_ok.1 h
  have hstep : Inv env a₁ ∧ Extends a a₁ ∧ a₁.activeLocals = a.activeLocals ∧
      ∀ l, a₁.states.root env.sem l = a.states.root env.sem l := by
    rcases hclean with ⟨-, plan, a₂, hplan, rfl⟩ | ⟨-, rfl⟩
    · have hregs : ∀ r ∈ (a.cleanupRegistrations.drop before.cleanupRegistrations.length).reverse,
          r ∈ a.cleanupRegistrations := fun r hr => List.mem_of_mem_drop (List.mem_reverse.1 hr)
      obtain ⟨hi, hf', hact, -⟩ := frame_cleanupPlan ha hregs hplan
      have ht : Touches env [] a₂ ({ a₂ with
          blockCleanups := (b.id, plan) :: a₂.blockCleanups }.diagnoseUninitializedStorage env
            (a.activeLocals.drop before.activeLocals.length)) :=
        .of_states (.refl _) (List.prefix_append _ _) rfl rfl rfl rfl rfl rfl
      exact ⟨ht.inv hi, (hf'.trans ht.frame).extends, hact,
        fun l => root_cleanupPlan (fun r hr => ha.locals r (hregs r hr)) hplan l⟩
    · exact ⟨ha, .refl _, rfl, fun _ => rfl⟩
  obtain ⟨hi₁, hext, hact, hroot⟩ := hstep
  refine ⟨hext.trans (extends_restart _ _ _ _), fun s hs => ?_⟩
  have hs₁ : Covers env R a₁.states a₁.activeLocals s := hact ▸ hs.congr fun l _ => hroot l
  rw [← hact]
  exact hs₁.eraseLocals hi₁.nodup _

/-- The end of a `For`: the states in which its condition is left and those on the break edges. -/
lemma sound_leaveFor (hI : Interprets env M R covered) {loop a' : Analysis} {i : Block}
    {exit : StateMap} {breaks : Option StateMap} (hl : Inv env loop) (ha : Inv env a)
    (hf : Frame L loop a) (hexit : PathOk env L loop exit)
    (hbreaks : ∀ S, breaks = some S →
      MapOk env S (loop.activeLocals.take before.activeLocals.length))
    (h : leaveFor env rec i before loop exit breaks a = .ok a') :
    Extends a a' ∧
    (∀ s, Covers env R exit loop.activeLocals s → Covers env R a'.states a'.activeLocals s) ∧
    ∀ s S, breaks = some S →
      Covers env R S (loop.activeLocals.take before.activeLocals.length) s →
      Covers env R a'.states a'.activeLocals s := by
  obtain ⟨plan, a₁, hplan, rfl⟩ := leaveFor_ok.1 h
  have hregs : ∀ r ∈ (loop.cleanupRegistrations.drop before.cleanupRegistrations.length).reverse,
      r ∈ (a.restart exit loop.activeLocals loop.cleanupRegistrations).cleanupRegistrations :=
    fun r hr => List.mem_of_mem_drop (List.mem_reverse.1 hr)
  have hr := hl.restart ha hf hexit.map
  obtain ⟨hi₁, hf₁, hact, -⟩ := frame_cleanupPlan hr hregs hplan
  have hactl : a₁.activeLocals = loop.activeLocals := hact
  have hext₁ : Extends a₁ ({ a₁ with blockCleanups := (i.id, plan) :: a₁.blockCleanups }) :=
    ⟨forall₂_grows_refl _, List.prefix_refl _, List.prefix_refl _⟩
  have hmap := hi₁.states.eraseLocals hi₁.nodup before.activeLocals.length
  refine ⟨((extends_restart _ _ _ _).trans hf₁.extends).trans
    (hext₁.trans (extends_restart _ _ _ _)), fun s hs => ?_, fun s S hS hs => ?_⟩
  · have hs₁ : Covers env R a₁.states a₁.activeLocals s := by
      rw [hactl]
      exact hs.congr fun l _ =>
        root_cleanupPlan (fun r hr' => hr.locals r (hregs r hr')) hplan l
    rw [← hactl]
    exact (hs₁.eraseLocals hi₁.nodup _).joinEdge_left hI _
  · rw [hS]
    have hmapS := hbreaks S hS
    rw [← hactl] at hmapS hs ⊢
    exact hs.merge_right hI hmap hmapS

/-! ## Instructions and blocks -/

section

variable (hI : Interprets env M R covered) (hframe : RecFrame env rec)
  (hrec : RecSound env M R covered rec)
include hI hframe hrec

/-- The runs of an instruction whose analysis emits no diagnostic. -/
theorem sound_analyzeInst {fuel : Nat} {i : Inst} {a a' : Analysis} {r : Bool}
    (h : analyzeInst env rec fuel i a = .ok (r, a')) (hi : covered i = true)
    (hcov : ∀ j ∈ i.nested, covered j = true) (ha : Inv env a)
    (hsnap : ⟨i.id, a.states, a.activeLocals⟩ ∈ a.snapshots)
    (hknows : ∀ x, a.Knows x → x ∈ W) (hdecl : declaresFirst W (i :: i.nested) = true)
    (hdiag : a'.diagnostics = a.diagnostics) :
    Triple M (Recorded env R a') (Covers env R a.states a.activeLocals) (.inst i)
      (flowPost env R a.activeLocals r a') := by
  have hq := hI.quiet i hi
  have hquiet : ∀ j ∈ i.nested, j.quiet = true := fun j hj => hI.quiet j (hcov j hj)
  obtain ⟨-, hfa⟩ := frame_analyzeInst hframe h hq hquiet ha
  have hG : ∀ s, Covers env R a.states a.activeLocals s → Recorded env R a' i.id s := fun s hs =>
    ⟨_, hfa.snapshots.subset hsnap, rfl, hs⟩
  have hcut : ∀ s, Covers env R a.states a.activeLocals s →
      flowPost env R a.activeLocals r a' .cut s := fun _ _ => trivial
  simp only [declaresFirst, Bool.and_eq_true] at hdecl
  have hknows' : ∀ x, a.Knows x → x ∈ W ++ i.locals := fun x hx =>
    List.mem_append_left _ (hknows x hx)
  have hstraight : ∀ {j : Inst}, j = i → j.straightLine = true → r = true → a' = transfer env j a →
      Triple M (Recorded env R a') (Covers env R a.states a.activeLocals) (.inst j)
        (flowPost env R a.activeLocals r a') := by
    rintro j rfl hj rfl rfl
    refine .step hj hcut hG fun s s' hs hstep => ⟨rfl, hI.step hi ha ?_ hdiag hs hstep⟩
    rintro id l rfl
    by_contra hhas
    have hmem := hknows l (.states (by simpa using hhas))
    have hfresh := hdecl.1
    simp only [Bool.not_eq_true', List.contains_eq_mem, decide_eq_false_iff_not] at hfresh
    exact hfresh hmem
  cases i with
  | value v | declareUninitialized id l | parameter id l | bindName id l v | assign id t v
  | extendTemporary id v | other id =>
    simp only [analyzeInst, pure_eq_ok, Prod.mk.injEq] at h
    exact hstraight rfl rfl h.1.symm h.2.symm
  | unrecoverableFailure id => exact .unrecoverableFailure hcut hG
  | endFullExpression id l | defer id d => simp [Inst.quiet] at hq
  | ret id kind v => exact .ret hcut hG fun _ _ _ _ => trivial
  | brk id n =>
    refine Triple.edge (k := true) hcut hG fun s s' hs hedge => ?_
    obtain rfl := hI.edge hedge
    exact sound_analyzeEdge hI h ha hs
  | cont id n =>
    refine Triple.edge (k := false) hcut hG fun s s' hs hedge => ?_
    obtain rfl := hI.edge hedge
    exact sound_analyzeEdge hI h ha hs
  | scopedBlock id b =>
    exact .scope (Or.inl rfl) hcut hG (hrec h hcov ha hknows' hdecl.2 hdiag)
  | taskScope id b =>
    exact .scope (Or.inr rfl) hcut hG (hrec h hcov ha hknows' hdecl.2 hdiag)
  | ifInst id v arms =>
    obtain ⟨merged, a₁, harms, rfl, rfl⟩ := analyzeIf_ok.1 h
    have hm : JoinOk env (mentioned (blocksInstructions arms)) a
        (if arms.length = 1 then some a.states else none) := by
      split
      · rintro U hU
        obtain rfl := Option.some.inj hU
        exact .self ha
      · exact JoinOk.none
    obtain ⟨hall, hkeep⟩ := sound_analyzeIfArms hI hframe hrec ha hcov (fun _ hx => hx) hknows'
      hdecl.2 harms ha (.refl _) hm hdiag
    have hend : ∀ s, joinPost env R a.activeLocals merged s → merged.isSome = true ∧
        Covers env R (merged.getD a.states) a.activeLocals s := by
      rintro s ⟨U, rfl, hs⟩
      exact ⟨rfl, hs⟩
    refine .ifInst hcut hG (fun b hb => (hall b hb).imp (fun _ hs => hs) (fun _ _ hs => hs)
      fun e s hs => thenPost_imp hs (hend s) fun _ he => he) fun hlen s hs => hend s (hkeep s ?_)
    rw [if_pos hlen]
    exact ⟨_, rfl, hs⟩
  | switch id v arms =>
    obtain ⟨merged, a₁, harms, rfl, rfl⟩ := analyzeSwitch_ok.1 h
    obtain ⟨hall, -⟩ := sound_analyzeSwitchArms hI hframe hrec ha
      (L := v.locals ++ mentioned (armsInstructions arms))
      (fun _ hx => List.mem_append_left _ hx) (fun _ hx => List.mem_append_right _ hx) hq hcov
      (fun _ hx => List.mem_append_right _ hx) hknows' hdecl.2 harms ha (.refl _) JoinOk.none hdiag
    have hend : ∀ s, joinPost env R a.activeLocals merged s → merged.isSome = true ∧
        Covers env R (merged.getD a.states) a.activeLocals s := by
      rintro s ⟨U, rfl, hs⟩
      exact ⟨rfl, hs⟩
    exact .switch hcut hG fun arm harm => (hall arm harm).imp (fun _ hs => hs)
      (fun _ _ hs => hs) fun e s hs => thenPost_imp hs (hend s) fun _ he => he
  | whileLoop id c b =>
    simp only [Inst.nested, List.mem_append] at hcov hquiet
    obtain ⟨a₁, h₁, h₂⟩ := bind_eq_ok.1 h
    simp only [pure_eq_ok, Prod.mk.injEq] at h₂
    obtain ⟨rfl, rfl⟩ := h₂
    obtain ⟨exit, a₂, hpasses, rfl⟩ := analyzeWhile_ok.1 h₁
    have hlc : ∀ x ∈ mentioned c.instructions,
        x ∈ mentioned c.instructions ++ mentioned b.instructions :=
      fun x hx => List.mem_append_left _ hx
    have hlb : ∀ x ∈ mentioned b.instructions,
        x ∈ mentioned c.instructions ++ mentioned b.instructions :=
      fun x hx => List.mem_append_right _ hx
    obtain ⟨-, -, -, header, a₀, next, hs, hpass, hsame⟩ := frame_passes ha
      (fun hs hpass => frame_whilePass hframe ha (fun j hj => hquiet j (Or.inl hj))
        (fun j hj => hquiet j (Or.inr hj)) hlc hlb hs hpass) hpasses
    have hloop := sound_whilePass hI hframe hrec ha (fun j hj => hcov j (Or.inl hj))
      (fun j hj => hcov j (Or.inr hj)) hlc hlb hknows' hdecl.2 hs hpass hsame hdiag
    exact .whileLoop hcut hG (hloop.imp (fun _ hs => hs) (fun _ _ hs => hs) fun e s hs =>
      thenPost_imp hs (fun hs => ⟨rfl, hs⟩) fun _ he => he)
  | doWhile id c b =>
    simp only [Inst.nested, List.mem_append] at hcov hquiet
    obtain ⟨exit, a₂, hpasses, rfl, rfl⟩ := analyzeDoWhile_ok.1 h
    have hlc : ∀ x ∈ mentioned c.instructions,
        x ∈ mentioned c.instructions ++ mentioned b.instructions :=
      fun x hx => List.mem_append_left _ hx
    have hlb : ∀ x ∈ mentioned b.instructions,
        x ∈ mentioned c.instructions ++ mentioned b.instructions :=
      fun x hx => List.mem_append_right _ hx
    obtain ⟨-, -, -, header, a₀, next, hs, hpass, hsame⟩ := frame_passes ha
      (fun hs hpass => frame_doWhilePass hframe ha (fun j hj => hquiet j (Or.inr hj))
        (fun j hj => hquiet j (Or.inl hj)) hlc hlb hs hpass) hpasses
    have hloop := sound_doWhilePass hI hframe hrec ha (fun j hj => hcov j (Or.inr hj))
      (fun j hj => hcov j (Or.inl hj)) hlc hlb hknows' hdecl.2 hs hpass hsame hdiag
    have hend : ∀ s, joinPost env R a.activeLocals exit s → exit.isSome = true ∧
        Covers env R (exit.getD a.states) a.activeLocals s := by
      rintro s ⟨U, rfl, hs⟩
      exact ⟨rfl, hs⟩
    exact .doWhile hcut hG (hloop.imp (fun _ hs => hs) (fun _ _ hs => hs) fun e s hs =>
      thenPost_imp hs (hend s) fun _ he => he)
  | forLoop id init c p b =>
    simp only [Inst.nested, List.mem_append] at hcov hquiet
    obtain ⟨a₀, h₀, h₃⟩ := bind_eq_ok.1 h
    simp only [pure_eq_ok, Prod.mk.injEq] at h₃
    obtain ⟨rfl, rfl⟩ := h₃
    obtain ⟨x, a₁, exit, breaks, a₂, h₁, h₂, h₃⟩ := analyzeFor_ok.1 h₀
    rw [Inst.nested, declaresFirst_append] at hdecl
    -- the first clause
    obtain ⟨hi₁, hf₁, -⟩ := hframe h₁ (fun j hj => hquiet j (Or.inl hj)) ha
    have hlen : a.activeLocals.length ≤ a₁.activeLocals.length := hf₁.active.length_le
    -- the passes
    have hls : ∀ d ∈ [c, p, b], ∀ x ∈ mentioned d.instructions, x ∈ mentioned init.instructions ++
        (mentioned c.instructions ++ (mentioned p.instructions ++ mentioned b.instructions)) := by
      intro d hd x hx
      simp only [List.mem_cons, List.not_mem_nil, or_false] at hd
      simp only [List.mem_append]
      rcases hd with rfl | rfl | rfl
      · exact Or.inr (Or.inl hx)
      · exact Or.inr (Or.inr (Or.inl hx))
      · exact Or.inr (Or.inr (Or.inr hx))
    obtain ⟨hi₂, hf₂, hq₂, header, a₀', next, hs, hpass, hsame⟩ := frame_passes hi₁
      (Q := fun out => PathOk env _ a₁ out.1 ∧ ∀ S, out.2 = some S →
        MapOk env S (a₁.activeLocals.take a.activeLocals.length))
      (fun {header a' next out a''} hs hpass => by
        obtain ⟨exit, breaks⟩ := out
        obtain ⟨hi, hf, hn, he, hbr⟩ := frame_forPass hframe hi₁
          (fun j hj => hquiet j (Or.inr (Or.inl hj)))
          (fun j hj => hquiet j (Or.inr (Or.inr (Or.inr hj))))
          (fun j hj => hquiet j (Or.inr (Or.inr (Or.inl hj))))
          (hls c (by simp)) (hls p (by simp)) (hls b (by simp)) hlen hs hpass
        exact ⟨hi, hf, hn, he, fun S hS => (hbr S hS).1⟩) h₂
    obtain ⟨hext, hcovE, hcovB⟩ := sound_leaveFor hI hi₁ hi₂ hf₂ hq₂.1 hq₂.2 h₃
    obtain ⟨hd₁, hd₂⟩ := eq_of_between hf₁.diagnostics
      (hf₂.diagnostics.trans hext.diagnostics) hdiag
    obtain ⟨hd₂, -⟩ := eq_of_between hf₂.diagnostics hext.diagnostics hd₂
    have hloop := sound_forPass hI hframe hrec (i := init) hi₁
      (fun j hj => hcov j (Or.inr (Or.inl hj)))
      (fun j hj => hcov j (Or.inr (Or.inr (Or.inr hj))))
      (fun j hj => hcov j (Or.inr (Or.inr (Or.inl hj))))
      (hls c (by simp)) (hls p (by simp)) (hls b (by simp)) hlen
      (W := W ++ (Inst.forLoop id init c p b).locals ++ mentioned init.instructions)
      (fun x hx => by
        rcases hf₁.knows x hx with hx | hx
        · exact List.mem_append_left _ (hknows' x hx)
        · exact List.mem_append_right _ hx) hdecl.2.2 hs hpass hsame hd₂ hcovE hcovB
    have hinit := Triple.around hI ha (.refl _) hf₁ (hf₂.extends.trans hext)
      (J := Covers env R a₁.states a₁.activeLocals)
      (hrec h₁ (fun j hj => hcov j (Or.inl hj)) ha hknows' hdecl.2.1 hd₁) fun s _ hs => hs
    refine Triple.forLoop (J := Covers env R a₁.states a₁.activeLocals) hcut hG ?_
      (hloop.imp (fun _ hs => hs) (fun _ _ hs => hs.mono hext) fun e s hs => ?_)
    · unfold flowPost
      rw [thenPost_thenPost]
      exact hinit
    · refine thenPost_imp hs (fun hs => ⟨rfl, hs⟩) fun e he => ?_
      exact edgePost_mono hI hext.flows (edgePost_restrict hf₁.active
        (fun f hf k => (hf₁.mono fun x hx => List.mem_append_left _ hx).trans hf₂ |>.depth ha hf k)
        he)

/-- The runs of a list of instructions whose analysis emits no diagnostic. -/
theorem sound_analyzeInsts {admits : Inst → Analysis → Bool} {fuel : Nat} {l : List Inst}
    {a a' : Analysis} {r : Bool} (h : analyzeInsts env admits rec fuel l a = .ok (r, a'))
    (hcov : ∀ i ∈ instsInstructions l, covered i = true) (ha : Inv env a)
    (hknows : ∀ x, a.Knows x → x ∈ W)
    (hdecl : declaresFirst W (instsInstructions l) = true)
    (hdiag : a'.diagnostics = a.diagnostics) :
    Triple M (Recorded env R a') (Covers env R a.states a.activeLocals) (.insts l)
      (flowPost env R a.activeLocals r a') := by
  induction l generalizing a W with
  | nil =>
    obtain ⟨rfl, rfl⟩ := analyzeInsts_nil_ok.1 h
    exact .nil (fun _ _ => trivial) fun s hs => ⟨rfl, hs⟩
  | cons i l ih =>
    simp only [instsInstructions, List.mem_cons, List.mem_append] at hcov
    rw [instsInstructions, ← List.cons_append, declaresFirst_append] at hdecl
    obtain ⟨-, falls, a₁, h₁, h₂⟩ := analyzeInsts_cons_ok.1 h
    have hquiet : ∀ j, covered j = true → j.quiet = true := hI.quiet
    obtain ⟨his, hfs⟩ := frame_snapshot (L := []) (i := i.id) ha
    obtain ⟨hi₁, hf₁⟩ := frame_analyzeInst hframe h₁ (hquiet i (hcov i (Or.inl rfl)))
      (fun j hj => hquiet j (hcov j (Or.inr (Or.inl hj)))) his
    have hd : ∀ id b, i ≠ .defer id b := by
      rintro id b rfl
      have := hquiet _ (hcov _ (Or.inl rfl))
      simp [Inst.quiet] at this
    have hstart : ∀ x, (a.snapshot i.id).Knows x → x ∈ W := fun x hx => hknows x (by
      cases hx with
      | states hx => exact .states hx
      | registered hr hx => exact .registered hr hx)
    -- the rest, when the first instruction is left at its end
    rcases h₂ with ⟨rfl, h₂⟩ | ⟨rfl, rfl, rfl⟩
    · obtain ⟨-, hf₂⟩ := frame_analyzeInsts hframe h₂
        (fun j hj => hquiet j (hcov j (Or.inr (Or.inr hj)))) hi₁
      obtain ⟨hd₁, hd₂⟩ := eq_of_between (hfs.diagnostics.trans hf₁.diagnostics) hf₂.diagnostics
        hdiag
      have hone := sound_analyzeInst hI hframe hrec h₁ (hcov i (Or.inl rfl))
        (fun j hj => hcov j (Or.inr (Or.inl hj))) his (by simp [Analysis.snapshot]) hstart hdecl.1
        hd₁
      have hrest := ih h₂ (fun j hj => hcov j (Or.inr (Or.inr hj))) hi₁
        (W := W ++ mentioned (i :: i.nested)) (fun x hx => by
          rcases hf₁.knows x hx with hx | hx
          · exact List.mem_append_left _ (hstart x hx)
          · exact List.mem_append_right _ (by simpa using hx)) hdecl.2 hd₂
      refine Triple.cons (J := Covers env R a₁.states a₁.activeLocals) hd (fun _ _ => trivial) ?_
        (hrest.imp (fun _ hs => hs) (fun _ _ hs => hs) fun e s hs => ?_)
      · unfold flowPost
        rw [thenPost_thenPost]
        exact Triple.around hI ha (hfs.mono (by simp)) hf₁ hf₂.extends hone fun s _ hs => hs
      · refine thenPost_imp hs (fun hs => hs) fun e he => ?_
        exact edgePost_restrict (hfs.active.trans hf₁.active) (fun f hf k =>
          Frame.depth (L := i.locals ++ mentioned i.nested ++ mentioned (instsInstructions l))
            (((hfs.mono (by simp)).trans (hf₁.mono fun x hx => List.mem_append_left _ hx)).trans
              (hf₂.mono fun x hx => List.mem_append_right _ hx)) ha hf k) he
    · have hone := sound_analyzeInst hI hframe hrec h₁ (hcov i (Or.inl rfl))
        (fun j hj => hcov j (Or.inr (Or.inl hj))) his (by simp [Analysis.snapshot]) hstart hdecl.1
        hdiag
      refine Triple.cons (J := fun _ => False) hd (fun _ _ => trivial)
        (hone.imp (fun _ hs => hs) (fun _ _ hs => hs) fun e s hs => ?_) fun _ _ _ _ hs => hs.elim
      unfold flowPost
      rw [thenPost_thenPost]
      exact thenPost_imp hs (fun hs => by simp at hs) fun _ he => he

end

/-- **Soundness of the control flow.** When the analysis of a block emits no diagnostic, every run of
the block from a state that the analysis covers reaches its instructions in states that the analysis
covers, and is left in one.

**Proof sketch.** Induction on the fuel, which bounds the nesting of the analysis. Each construct is
one rule for triples: the analysis of its parts gives the triples of the parts, joins and the
comparison of headers connect them, and the frame says that what was recorded on the way stays. -/
theorem sound_analyzeBlock (hI : Interprets env M R covered) (admits : Inst → Analysis → Bool)
    (n : Nat) : RecSound env M R covered (analyzeBlock env admits n) := by
  induction n with
  | zero => exact fun h => absurd h analyzeBlock_zero_ne_ok
  | succ n ih =>
    intro b lexical a a' r W h hcov ha hknows hdecl hdiag
    have hframe : RecFrame env (analyzeBlock env admits n) := frame_analyzeBlock admits n
    obtain ⟨a₁, h₁, h₂⟩ := analyzeBlockWith_ok.1 h
    rw [Block.instructions_eq] at hcov hdecl
    obtain ⟨hi₁, hf₁⟩ := frame_analyzeInsts hframe h₁ (fun i hi => hI.quiet i (hcov i hi)) ha
    rcases h₂ with ⟨rfl, hleave⟩ | ⟨rfl, rfl⟩
    · obtain ⟨hext, hend⟩ := sound_leaveScope (R := R) hi₁ hf₁ hleave
      obtain ⟨hd₁, -⟩ := eq_of_between hf₁.diagnostics hext.diagnostics hdiag
      have hone := sound_analyzeInsts hI hframe ih h₁ hcov ha hknows hdecl hd₁
      refine Triple.block (J := fun s => r = true ∧ Covers env R a₁.states a₁.activeLocals s)
        (fun _ _ => trivial) (hone.imp (fun _ hs => hs) (fun _ _ hs => hs.mono hext)
          fun e s hs => ?_) fun s s' hs hs' => ?_
      · unfold flowPost
        rw [thenPost_thenPost]
        exact thenPost_imp hs (fun hs => hs) fun _ he => edgePost_mono hI hext.flows he
      · obtain rfl := hI.leave hs'
        exact ⟨hs.1, hend _ hs.2⟩
    · exact sound_analyzeInsts hI hframe ih h₁ hcov ha hknows hdecl hdiag

end

end Chtholly
