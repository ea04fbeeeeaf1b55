import Chtholly.Registry.Consistency
import Chtholly.Registry.Witness

/-!
# A witness endorses no fork

Every root that a witness has endorsed, and every head that it has named, is extended by the head
that it keeps now.  An observation is compared with the head of the moment only; that the heads of
different moments extend each other makes the statements agree over whole runs.

## Main definitions

* `Registry.WitnessStatement.Under` — the two roots of a statement are extended by a head.
* `Registry.Grows` — what one call may do to the head.
* `Registry.WitnessDatabase.Sound` — the invariant: every stored statement is under the head.

## Main results

* `Registry.WitnessStore.observe_sound` — one call keeps the invariant.
* `Registry.WitnessStore.observeAll_sound` — so do all calls.
* `Registry.WitnessStore.observe_noFork` — no two statements with the same size disagree.
-/

set_option autoImplicit false

namespace Chtholly

namespace Registry

open Merkle

/-- The head extends a root of a given size, by way of pairs of `S`. -/
def HeadRow.Over (head : HeadRow) (S : Set (Text × Text)) (size : UInt64) (root : Text) : Prop :=
  Extends nodeHash S size.toNat head.treeSize.toNat root head.rootHash

/-- The head extends the root that a statement endorses and the head that it names. -/
structure WitnessStatement.Under (S : Set (Text × Text)) (statement : WitnessStatement)
    (head : HeadRow) : Prop where
  endorsed : head.Over S statement.treeSize statement.rootHash
  named : head.Over S statement.headTreeSize statement.headRootHash

/-- The head stays, or is set for the first time, or moves to a larger size that extends it. -/
def Grows (S : Set (Text × Text)) (old new : Option HeadRow) : Prop :=
  new = old ∨ ∃ head, new = some head ∧
    ∀ before, old = some before →
      before.treeSize < head.treeSize ∧ head.Over S before.treeSize before.rootHash

/-- Every stored text is a statement under the head. -/
structure WitnessDatabase.Sound (S : Set (Text × Text)) (db : WitnessDatabase) : Prop where
  rows : ∀ row ∈ db.statements, ∃ statement head,
    row.statement = renderWitnessStatement statement ∧ db.head = some head ∧
      statement.Under S head
  head : ∀ head, db.head = some head → ∃ statement,
    head.statement = renderWitnessStatement statement ∧ statement.Under S head

section CollisionFree

variable {S : Set (Text × Text)} (hS : S.InjOn fun p => nodeHash p.1 p.2)

include hS

lemma HeadRow.Over.trans {before head : HeadRow} {size : UInt64} {root : Text}
    (h : before.Over S size root) (hgrow : head.Over S before.treeSize before.rootHash) :
    head.Over S size root :=
  Extends.trans hS h hgrow

/-- What is under a head stays under the head. -/
lemma WitnessStatement.Under.grows {statement : WitnessStatement} {before : HeadRow}
    {new : Option HeadRow} (h : statement.Under S before) (hgrow : Grows S (some before) new) :
    ∃ head, new = some head ∧ statement.Under S head := by
  rcases hgrow with rfl | ⟨head, rfl, hover⟩
  · exact ⟨before, rfl, h⟩
  · obtain ⟨-, hover⟩ := hover before rfl
    exact ⟨head, rfl, h.endorsed.trans hS hover, h.named.trans hS hover⟩

lemma Grows.trans {a b c : Option HeadRow} (hab : Grows S a b) (hbc : Grows S b c) :
    Grows S a c := by
  rcases hab with rfl | ⟨head, rfl, hover⟩
  · exact hbc
  · rcases hbc with rfl | ⟨next, rfl, hnext⟩
    · exact .inr ⟨head, rfl, hover⟩
    · refine .inr ⟨next, rfl, fun before hbefore => ?_⟩
      obtain ⟨hlt, hext⟩ := hover before hbefore
      obtain ⟨hlt', hext'⟩ := hnext head rfl
      exact ⟨UInt64.lt_trans hlt hlt', hext.trans hS hext'⟩

/-- The stored statements stay under the head, however it grows. -/
lemma WitnessDatabase.Sound.grows {db db' : WitnessDatabase} (h : db.Sound S)
    (hgrow : Grows S db.head db'.head) {row : StatementRow} (hrow : row ∈ db.statements) :
    ∃ statement head, row.statement = renderWitnessStatement statement ∧
      db'.head = some head ∧ statement.Under S head := by
  obtain ⟨statement, head, htext, hhead, hunder⟩ := h.rows row hrow
  rw [hhead] at hgrow
  obtain ⟨new, hnew, hunder⟩ := hunder.grows hS hgrow
  exact ⟨statement, new, htext, hnew, hunder⟩

end CollisionFree

/-! ## The writes of a call -/

namespace WitnessDatabase

variable {db db' : WitnessDatabase}

lemma insertRoot_frame {fails : Bool} {version : ℕ} {canonical : Text}
    (h : db.insertRoot fails version canonical = some db') :
    db'.head = db.head ∧ db'.statements = db.statements := by
  obtain ⟨db₁, hinsert, hcheck⟩ := Option.bind_eq_some_iff.mp h
  obtain rfl : db₁ = db' := by
    split at hcheck
    · exact Option.some.inj hcheck
    · simp at hcheck
  split at hinsert
  · obtain rfl := Option.some.inj hinsert
    exact ⟨rfl, rfl⟩
  · split at hinsert
    · simp at hinsert
    · obtain rfl := Option.some.inj hinsert
      exact ⟨rfl, rfl⟩

lemma insertRoots_frame {fails : ℕ → Bool} {index : ℕ} {chain : List Text}
    (h : db.insertRoots fails index chain = some db') :
    db'.head = db.head ∧ db'.statements = db.statements := by
  induction chain generalizing db index with
  | nil =>
    obtain rfl := Option.some.inj h
    exact ⟨rfl, rfl⟩
  | cons canonical chain ih =>
    obtain ⟨db₁, hfirst, hrest⟩ := Option.bind_eq_some_iff.mp h
    obtain ⟨hhead, hstatements⟩ := ih hrest
    obtain ⟨hhead', hstatements'⟩ := insertRoot_frame hfirst
    exact ⟨hhead.trans hhead', hstatements.trans hstatements'⟩

lemma incident_frame (db : WitnessDatabase) (fails : Bool) (row : IncidentRow) :
    (db.incident fails row).2.head = db.head ∧
      (db.incident fails row).2.statements = db.statements := by
  unfold incident
  split_ifs <;> exact ⟨rfl, rfl⟩

end WitnessDatabase

namespace WitnessStore

variable {S : Set (Text × Text)} {store : WitnessStore} {call : WitnessCall}

/-- The transaction adds one statement and moves the head if it is asked to. -/
lemma writes_spec {db db' : WitnessDatabase} {decision : HeadDecision} {result : WitnessStatement}
    (h : writes db call decision result = some db') :
    (∃ row : StatementRow, row.statement = renderWitnessStatement result ∧
      db'.statements = db.statements ++ [row]) ∧
    db'.head = if decision.advance then
      some ⟨decision.treeSize, decision.rootHash, renderWitnessStatement result⟩ else db.head := by
  obtain ⟨db₁, hroots, h⟩ := Option.bind_eq_some_iff.mp h
  obtain ⟨db₂, hstatement, h⟩ := Option.bind_eq_some_iff.mp h
  obtain ⟨hhead, hrows⟩ := WitnessDatabase.insertRoots_frame hroots
  unfold WitnessDatabase.insertStatement at hstatement
  split at hstatement
  · simp at hstatement
  obtain rfl := Option.some.inj hstatement
  cases hadv : decision.advance with
  | false =>
    rw [hadv] at h
    obtain rfl := Option.some.inj h
    exact ⟨⟨_, rfl, by rw [← hrows]⟩, hhead⟩
  | true =>
    rw [hadv, if_pos rfl] at h
    unfold WitnessDatabase.setHead at h
    split at h
    · simp at h
    · obtain rfl := Option.some.inj h
      exact ⟨⟨_, rfl, by rw [← hrows]⟩, rfl⟩

/-- What the check against the head has established when it lets an observation pass. -/
lemma checkHead_spec {decision : HeadDecision} (hwithin : ∀ p ∈ store.hashes call, p ∈ S)
    (h : checkHead store.database call = .ok decision) :
    (decision.advance = true ∧ decision.treeSize = call.observation.checkpoint.treeSize ∧
      decision.rootHash = call.observation.checkpoint.rootHash ∧
      ∀ head, store.database.head = some head →
        head.treeSize < decision.treeSize ∧
        Extends nodeHash S head.treeSize.toNat decision.treeSize.toNat head.rootHash
          decision.rootHash) ∨
    (decision.advance = false ∧ ∃ head, store.database.head = some head ∧
      decision.treeSize = head.treeSize ∧ decision.rootHash = head.rootHash ∧
      head.Over S call.observation.checkpoint.treeSize call.observation.checkpoint.rootHash) := by
  unfold checkHead at h
  unfold hashes at hwithin
  cases hhead : store.database.head with
  | none =>
    rw [hhead] at h
    obtain rfl := Except.ok.inj h
    exact .inl ⟨rfl, rfl, rfl, by simp⟩
  | some head =>
    rw [hhead] at h hwithin
    dsimp only at h hwithin
    by_cases hsize : head.treeSize = call.observation.checkpoint.treeSize
    · rw [if_pos hsize] at h
      split at h
      · simp at h
      · rename_i hroot
        obtain rfl := Except.ok.inj h
        refine .inr ⟨rfl, head, rfl, rfl, rfl, ?_⟩
        rw [HeadRow.Over, hsize, not_ne_iff.mp hroot]
        exact .refl _ _
    · rw [if_neg hsize] at h
      cases hproof : proofFor head call with
      | error message => simp [hproof] at h
      | ok proof =>
        rw [hproof] at h hwithin
        dsimp only at h hwithin
        split at h
        · simp at h
        · rename_i hverify
          have hext := (extends_of_verify (UInt64.toNat_lt _) (not_ne_iff.mp hverify) hwithin).2
          by_cases hlt : head.treeSize < call.observation.checkpoint.treeSize
          · rw [if_pos hlt] at h
            obtain rfl := Except.ok.inj h
            rw [ordered, if_pos hlt] at hext
            refine .inl ⟨rfl, rfl, rfl, fun head' hhead' => ?_⟩
            obtain rfl := Option.some.inj hhead'
            exact ⟨hlt, hext⟩
          · rw [if_neg hlt] at h
            obtain rfl := Except.ok.inj h
            rw [ordered, if_neg hlt] at hext
            exact .inr ⟨rfl, head, rfl, rfl, rfl, hext⟩

/-! ## One call -/

/-- What a call keeps and gives. -/
structure Kept (S : Set (Text × Text)) (store : WitnessStore)
    (outcome : Except String WitnessStatement × WitnessStore) : Prop where
  sound : outcome.2.database.Sound S
  grows : Grows S store.database.head outcome.2.database.head
  under : ∀ statement, outcome.1 = .ok statement →
    ∃ head, outcome.2.database.head = some head ∧ statement.Under S head

/-- A call that fails and leaves the log alone. -/
lemma kept_of_error {store' : WitnessStore} {message : String} (h : store.database.Sound S)
    (hhead : store'.database.head = store.database.head)
    (hrows : store'.database.statements = store.database.statements) :
    Kept S store (.error message, store') where
  sound := by
    constructor
    · rw [hhead, hrows]
      exact h.rows
    · rw [hhead]
      exact h.head
  grows := .inl hhead
  under := by simp

lemma kept_refuse {row : IncidentRow} {message : String} (h : store.database.Sound S) :
    Kept S store (store.refuse call row message) := by
  obtain ⟨hhead, hrows⟩ := store.database.incident_frame call.incidentFails
    { row with detectedAt := call.observedAt }
  exact kept_of_error h hhead hrows

/-- A statement that is returned again. -/
lemma kept_existing {text : Text} (h : store.database.Sound S)
    (htext : store.database.statementFor (checkpointSha256 call) = some text) :
    Kept S store (parseWitnessStatement text, store) where
  sound := h
  grows := .inl rfl
  under := by
    intro t ht
    obtain ⟨row, hfind, rfl⟩ := Option.map_eq_some_iff.mp htext
    obtain ⟨statement, head, hrender, hhead, hunder⟩ :=
      h.rows row (List.mem_of_find?_eq_some hfind)
    rw [hrender] at ht
    obtain ht := parse_render ht
    refine ⟨head, hhead, ?_, ?_⟩
    · rw [ht]
      exact hunder.endorsed
    · rw [ht]
      exact hunder.named

section CollisionFree

variable (hS : S.InjOn fun p => nodeHash p.1 p.2)

include hS

section

variable {decision : HeadDecision} {result : WitnessStatement} (h : store.database.Sound S)
  (hwithin : ∀ p ∈ store.hashes call, p ∈ S) (hcheck : checkHead store.database call = .ok decision)
  (hresult : result.treeSize = call.observation.checkpoint.treeSize ∧ result.rootHash = call.observation.checkpoint.rootHash ∧ result.headTreeSize = decision.treeSize ∧ result.headRootHash = decision.rootHash)

include h hwithin hcheck hresult

/-- A new statement and its writes. -/
lemma kept_writes {db : WitnessDatabase}
    (hwrites : writes store.database call decision result = some db) :
    Grows S store.database.head db.head ∧
      (∃ head, db.head = some head ∧ result.Under S head) ∧ db.Sound S := by
  obtain ⟨hsize, hroot, hheadSize, hheadRoot⟩ := hresult
  obtain ⟨⟨row, hrow, hrows⟩, hhead⟩ := writes_spec hwrites
  have hgrow : Grows S store.database.head db.head ∧
      ∃ head, db.head = some head ∧ result.Under S head ∧
        ∃ statement, head.statement = renderWitnessStatement statement ∧
          statement.Under S head := by
    rcases checkHead_spec hwithin hcheck with
      ⟨hadv, hts, hrh, hover⟩ | ⟨hadv, head, hold, hts, hrh, hover⟩
    · rw [hadv, if_pos rfl] at hhead
      have hunder : result.Under S
          ⟨decision.treeSize, decision.rootHash, renderWitnessStatement result⟩ := by
        constructor
        · rw [HeadRow.Over, hsize, hroot, hts, hrh]
          exact .refl _ _
        · rw [HeadRow.Over, hheadSize, hheadRoot]
          exact .refl _ _
      exact ⟨.inr ⟨_, hhead, hover⟩, _, hhead, hunder, result, rfl, hunder⟩
    · rw [hadv] at hhead
      refine ⟨.inl hhead, head, hhead.trans hold, ⟨?_, ?_⟩, h.head head hold⟩
      · rw [hsize, hroot]
        exact hover
      · rw [HeadRow.Over, hheadSize, hheadRoot, hts, hrh]
        exact .refl _ _
  obtain ⟨hgrow, head, hdb, hunder, hstored⟩ := hgrow
  refine ⟨hgrow, ⟨head, hdb, hunder⟩, ?_, ?_⟩
  · intro other hother
    rw [hrows, List.mem_append, List.mem_singleton] at hother
    rcases hother with hother | rfl
    · exact h.grows hS hgrow hother
    · exact ⟨result, head, hrow, hdb, hunder⟩
  · intro head' hhead'
    obtain rfl : head = head' := Option.some.inj (hdb.symm.trans hhead')
    exact hstored

lemma kept_commit : Kept S store (store.commit call decision result) := by
  unfold commit
  split
  · exact kept_of_error h rfl rfl
  · cases hwrites : writes store.database call decision result with
    | none => exact kept_of_error h rfl rfl
    | some db =>
      obtain ⟨hgrow, hunder, hrows⟩ := kept_writes hS h hwithin hcheck hresult hwrites
      cases call.commit with
      | committed =>
        refine ⟨hrows, hgrow, fun statement hstatement => ?_⟩
        obtain rfl := Except.ok.inj hstatement
        exact hunder
      | rolledBack => exact kept_of_error h rfl rfl
      | pending => exact ⟨hrows, hgrow, by simp⟩

end

/-- One call keeps the invariant, whatever it meets. -/
theorem observe_sound (h : store.database.Sound S) (hwithin : ∀ p ∈ store.hashes call, p ∈ S) :
    Kept S store (store.observe call) := by
  unfold observe
  dsimp only
  split_ifs
  · exact kept_of_error h rfl rfl
  · exact kept_of_error h rfl rfl
  · cases call.validation with
    | error message => exact kept_of_error h rfl rfl
    | ok _ =>
      cases equivocation store.database 0 call.observation.rootChain with
      | some row => exact kept_refuse h
      | none =>
        cases htext : store.database.statementFor (checkpointSha256 call) with
        | some text => exact kept_existing h htext
        | none =>
          cases hcheck : checkHead store.database call with
          | error outcome => exact kept_refuse h
          | ok decision =>
            dsimp only
            cases hsigned : store.signed call decision with
            | error message => exact kept_of_error h rfl rfl
            | ok result =>
              refine kept_commit hS h hwithin hcheck ?_
              unfold signed at hsigned
              dsimp only at hsigned
              split at hsigned
              · simp at hsigned
              · split at hsigned
                · obtain rfl := Except.ok.inj hsigned
                  exact ⟨rfl, rfl, rfl, rfl⟩
                · simp at hsigned
              · simp at hsigned

/-! ## Many calls -/

/-- The calls keep the invariant, and all that they return is under the head in the end. -/
theorem observeAll_sound (calls : List WitnessCall) (h : store.database.Sound S)
    (hwithin : store.Within S calls) :
    (store.observeAll calls).2.database.Sound S ∧
      Grows S store.database.head (store.observeAll calls).2.database.head ∧
      ∀ statement ∈ (store.observeAll calls).1,
        ∃ head, (store.observeAll calls).2.database.head = some head ∧
          statement.Under S head := by
  induction calls generalizing store with
  | nil => exact ⟨h, .inl rfl, by simp [observeAll]⟩
  | cons call calls ih =>
    obtain ⟨hcall, hcalls⟩ := hwithin
    have hkept := observe_sound hS h hcall
    obtain ⟨hsound, hgrow, hunder⟩ := ih hkept.sound hcalls
    unfold observeAll
    dsimp only
    cases houtcome : (store.observe call).1 with
    | error message => exact ⟨hsound, hkept.grows.trans hS hgrow, hunder⟩
    | ok statement =>
      refine ⟨hsound, hkept.grows.trans hS hgrow, fun other hother => ?_⟩
      rcases List.mem_cons.mp hother with rfl | hother
      · obtain ⟨head, hhead, hover⟩ := hkept.under other houtcome
        rw [hhead] at hgrow
        exact hover.grows hS hgrow
      · exact hunder other hother

end CollisionFree

lemma observeAll_append (store : WitnessStore) (calls more : List WitnessCall) :
    (store.observeAll (calls ++ more)).2 = ((store.observeAll calls).2.observeAll more).2 := by
  induction calls generalizing store with
  | nil => rfl
  | cons call calls ih =>
    rw [List.cons_append, observeAll, observeAll]
    cases (store.observe call).1 <;> exact ih _

lemma within_append {calls more : List WitnessCall} :
    store.Within S (calls ++ more) ↔
      store.Within S calls ∧ (store.observeAll calls).2.Within S more := by
  induction calls generalizing store with
  | nil => simp [Within, observeAll]
  | cons call calls ih =>
    have hrun : (store.observeAll (call :: calls)).2 =
        ((store.observe call).2.observeAll calls).2 := by
      rw [observeAll]
      cases (store.observe call).1 <;> rfl
    rw [List.cons_append, Within, Within, ih, hrun, and_assoc]

/-- Statements with one size carry one root; the head only moves to larger sizes; and against the
head in the end no other root is accepted at the size of a statement. -/
theorem observe_noFork (S : Set (Text × Text)) (hS : S.InjOn fun p => nodeHash p.1 p.2)
    (config : WitnessConfig) (keyId : Text) (calls more : List WitnessCall)
    (hwithin : WitnessStore.Within S ⟨config, keyId, {}, false⟩ (calls ++ more)) :
    let store : WitnessStore := ⟨config, keyId, {}, false⟩
    (∀ s ∈ (store.observeAll calls).1, ∀ t ∈ (store.observeAll calls).1,
      s.treeSize = t.treeSize → s.rootHash = t.rootHash) ∧
    (∀ head, (store.observeAll calls).2.database.head = some head →
      ∃ later, (store.observeAll (calls ++ more)).2.database.head = some later ∧
        (later = head ∨ head.treeSize < later.treeSize)) ∧
    (∀ s ∈ (store.observeAll calls).1,
      ∃ head, (store.observeAll calls).2.database.head = some head ∧
        ∀ (r : Text) (proof : List Text),
          (∀ p ∈ consistencyHashes s.treeSize.toNat head.treeSize.toNat r proof, p ∈ S) →
          verifyRegistryMerkleConsistency s.treeSize.toNat head.treeSize.toNat r head.rootHash
            proof = some true → r = s.rootHash) := by
  intro store
  have hempty : store.database.Sound S := ⟨by simp [store], by simp [store]⟩
  obtain ⟨hfirst, hsecond⟩ := within_append.mp hwithin
  obtain ⟨hsound, -, hunder⟩ := observeAll_sound hS calls hempty hfirst
  refine ⟨?_, ?_, ?_⟩
  · intro s hs t ht hsize
    obtain ⟨head, hhead, hover⟩ := hunder s hs
    obtain ⟨head', hhead', hover'⟩ := hunder t ht
    obtain rfl : head = head' := Option.some.inj (hhead.symm.trans hhead')
    have h' := hover'.endorsed
    rw [← hsize] at h'
    exact Extends.unique hS hover.endorsed h'
  · intro head hhead
    obtain ⟨-, hgrow, -⟩ := observeAll_sound hS more hsound hsecond
    rw [observeAll_append, hhead] at *
    rcases hgrow with hsame | ⟨later, hlater, hover⟩
    · exact ⟨head, hsame, .inl rfl⟩
    · exact ⟨later, hlater, .inr (hover head rfl).1⟩
  · intro s hs
    obtain ⟨head, hhead, hover⟩ := hunder s hs
    refine ⟨head, hhead, fun r proof hhashes hverify => ?_⟩
    have hext := (extends_of_verify (UInt64.toNat_lt _) hverify hhashes).2
    exact Extends.unique hS hext hover.endorsed

/-- A registry that grows from one entry to two, and a witness that sees both sizes. -/
def growingConfig : WitnessConfig :=
  ⟨"witness".toList, "registry".toList, "https://registry".toList⟩

def growingCall (treeSize : UInt64) (rootHash : Text) (proof : List Text) : WitnessCall where
  observation := ⟨"https://registry".toList,
    ⟨"registry".toList, treeSize, rootHash, 1, sha256Hex [7], "2024-03-01T00:00:00Z".toList, []⟩,
    ["root".toList]⟩
  observedAt := "2024-03-01T00:00:10Z".toList
  validation := .ok ()
  fetchProof := some fun _ _ => .ok proof
  sign := fun _ => .ok [⟨"key".toList, "signature".toList⟩]
  incidentFails := false
  beginFails := false
  rootFails := fun _ => false
  statementFails := false
  headFails := false
  commit := .committed

def growingCalls : List WitnessCall :=
  [growingCall 1 (sha256Hex [0]) [],
    growingCall 2 (nodeHash (sha256Hex [0]) (sha256Hex [1])) [sha256Hex [1]]]

theorem growing_noFork :
    ∃ head, (observeAll ⟨growingConfig, "key".toList, {}, false⟩
        (growingCalls.take 1)).2.database.head = some head ∧
      ∃ later, (observeAll ⟨growingConfig, "key".toList, {}, false⟩
          (growingCalls.take 1 ++ growingCalls.drop 1)).2.database.head = some later ∧
        (later = head ∨ head.treeSize < later.treeSize) := by
  have hhead : ((observeAll ⟨growingConfig, "key".toList, {}, false⟩
      (growingCalls.take 1)).2.database.head.map HeadRow.treeSize) = some 1 := by
    decide +kernel
  have hfirst : hashes ⟨growingConfig, "key".toList, {}, false⟩
      (growingCall 1 (sha256Hex [0]) []) = [] := rfl
  have hsecond : hashes
      (observe ⟨growingConfig, "key".toList, {}, false⟩ (growingCall 1 (sha256Hex [0]) [])).2
      (growingCall 2 (nodeHash (sha256Hex [0]) (sha256Hex [1])) [sha256Hex [1]]) =
      [(sha256Hex [0], sha256Hex [1])] := by
    decide +kernel
  have hS : Set.InjOn (fun p : Text × Text => nodeHash p.1 p.2)
      {(sha256Hex [0], sha256Hex [1])} := Set.injOn_singleton _ _
  have hwithin : Within {(sha256Hex [0], sha256Hex [1])}
      ⟨growingConfig, "key".toList, {}, false⟩
      (growingCalls.take 1 ++ growingCalls.drop 1) := by
    refine ⟨?_, ?_, trivial⟩
    · rw [hfirst]
      simp
    · rw [hsecond]
      simp
  obtain ⟨head, hhead, -⟩ := Option.map_eq_some_iff.mp hhead
  exact ⟨head, hhead, (observe_noFork _ hS growingConfig "key".toList _ _ hwithin).2.1 head hhead⟩

end WitnessStore

end Registry

end Chtholly
