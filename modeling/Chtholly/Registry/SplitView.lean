import Mathlib.Data.Finset.Card
import Mathlib.Data.List.Pairwise
import Chtholly.Registry.ClientView
import Chtholly.Registry.NoFork

/-!
# No split view

Two clients with the same witnesses cannot be shown two logs, as long as fewer witnesses deviate
than two quorums must share: some witness that follows `observe` is in both quorums, the heads that
it named to the two clients are extended by the head that it keeps, and each client has checked
that the head it was named extends its snapshot.

## Main definitions

* `Registry.WitnessStore.Released` — the statements that a witness gives out.
* `Registry.Follows` — a witness whose key signs only what `observe` makes it sign.
* `Registry.witnessKeySet` — the distinct keys of a policy.

## Main results

* `Registry.ClientRun.extends_head` — an accepted snapshot is extended by every head of its quorum.
* `Registry.exists_common_key` — two quorums share a key that does not deviate.
* `Registry.verifyRegistryClientView_noSplit` — two accepted snapshots lie in one log.
-/

set_option autoImplicit false

namespace Chtholly

namespace Registry

open Merkle

/-! ## What a witness gives out -/

/-- What the calls return, and what `latest` returns before, between and after them. -/
def WitnessStore.Released (store : WitnessStore) (calls : List WitnessCall)
    (statement : WitnessStatement) : Prop :=
  statement ∈ (store.observeAll calls).1 ∨
    ∃ n, (store.observeAll (calls.take n)).2.latest = .ok statement

/-- A witness that follows `observe` from an empty store on and whose signatures cannot be forged:
every text with a valid signature under its key is that of a statement it has released. -/
def Follows (crypto : Crypto) (S : Set (Text × Text)) (key : Bytes) : Prop :=
  ∃ (config : WitnessConfig) (keyId : Text) (calls : List WitnessCall),
    WitnessStore.Within S ⟨config, keyId, {}, false⟩ calls ∧
    ∀ payload signature, crypto.verifyDetached key payload signature = true →
      ∃ statement, WitnessStore.Released ⟨config, keyId, {}, false⟩ calls statement ∧
        witnessStatementSignatureInput statement = payload

variable {crypto : Crypto} {S : Set (Text × Text)}

lemma WitnessStore.sound_empty (config : WitnessConfig) (keyId : Text) :
    (⟨config, keyId, {}, false⟩ : WitnessStore).database.Sound S :=
  ⟨by simp, by simp⟩

section CollisionFree

variable (hS : S.InjOn fun p => nodeHash p.1 p.2)

include hS

/-- Everything that was given out is under the head in the end. -/
lemma WitnessStore.Released.under {store : WitnessStore} {calls : List WitnessCall}
    {statement : WitnessStatement} (hsound : store.database.Sound S)
    (hwithin : store.Within S calls) (h : store.Released calls statement) :
    ∃ head, (store.observeAll calls).2.database.head = some head ∧ statement.Under S head := by
  rcases h with h | ⟨n, h⟩
  · exact (observeAll_sound hS calls hsound hwithin).2.2 statement h
  · rw [← List.take_append_drop n calls] at hwithin
    obtain ⟨hfirst, hrest⟩ := within_append.mp hwithin
    obtain ⟨hsound', -, -⟩ := observeAll_sound hS _ hsound hfirst
    obtain ⟨-, hgrow, -⟩ := observeAll_sound hS _ hsound' hrest
    rw [← observeAll_append, List.take_append_drop] at hgrow
    unfold latest at h
    split at h
    · simp at h
    · rename_i head hhead
      obtain ⟨written, hrender, hunder⟩ := hsound'.head head hhead
      rw [hrender] at h
      have heq := parse_render h
      have hunder' : statement.Under S head := by
        constructor
        · rw [heq]
          exact hunder.endorsed
        · rw [heq]
          exact hunder.named
      rw [hhead] at hgrow
      exact hunder'.grows hS hgrow

end CollisionFree

/-! ## The chain of a run -/

/-- The later view extends the earlier one. -/
def PinExtends (S : Set (Text × Text)) (a b : CheckpointPin) : Prop :=
  Extends nodeHash S a.treeSize.toNat b.treeSize.toNat a.rootHash b.rootHash

namespace ClientRun

variable {run : ClientRun}

lemma mem_dropRepeats {l : List CheckpointPin} {a : CheckpointPin} (h : a ∈ l) :
    a ∈ dropRepeats l := by
  fun_induction dropRepeats l with
  | case1 => exact h
  | case2 b => exact h
  | case3 b l ih =>
    rcases List.mem_cons.mp h with rfl | h
    · exact ih (.head _)
    · exact ih h
  | case4 b c l hne ih =>
    rcases List.mem_cons.mp h with rfl | h
    · exact .head _
    · exact .tail _ (ih h)

lemma checkLink_extends {previous current : CheckpointPin}
    (h : run.checkLink previous current = .ok ()) {rest : List CheckpointPin}
    (hwithin : ∀ p ∈ run.chainHashes (previous :: current :: rest), p ∈ S) :
    PinExtends S previous current := by
  unfold checkLink at h
  split at h
  · simp at h
  · rw [chainHashes] at hwithin
    cases hproof : run.fetchProof previous.treeSize current.treeSize with
    | error message => simp [hproof] at h
    | ok proof =>
      rw [hproof] at h hwithin
      dsimp only at h hwithin
      split at h
      · rename_i hverify
        exact (extends_of_verify (UInt64.toNat_lt _) hverify fun p hp =>
          hwithin p (List.mem_append_left _ hp)).2
      · simp at h

lemma checkChain_isChain {front previous : CheckpointPin} {rest : List CheckpointPin}
    (h : run.checkChain front previous rest = .ok ())
    (hwithin : ∀ p ∈ run.chainHashes (previous :: rest), p ∈ S) :
    List.IsChain (PinExtends S) (previous :: rest) := by
  induction rest generalizing previous with
  | nil => exact .singleton _
  | cons current rest ih =>
    unfold checkChain at h
    split at h
    · simp at h
    · split at h
      · simp at h
      · rename_i hlink
        refine .cons_cons (checkLink_extends hlink hwithin) (ih h fun p hp => hwithin p ?_)
        rw [chainHashes]
        exact List.mem_append_right _ hp

/-- Of two entries of a list with a relation from every entry to every later one. -/
lemma rel_of_pairwise {α : Type} {R : α → α → Prop} {l : List α} (h : l.Pairwise R) {a b : α}
    (ha : a ∈ l) (hb : b ∈ l) : a = b ∨ R a b ∨ R b a := by
  induction h with
  | nil => simp at ha
  | @cons x l hx _ ih =>
    rcases List.mem_cons.mp ha with rfl | ha'
    · rcases List.mem_cons.mp hb with rfl | hb'
      · exact .inl rfl
      · exact .inr (.inl (hx b hb'))
    · rcases List.mem_cons.mp hb with rfl | hb'
      · exact .inr (.inr (hx a ha'))
      · exact ih ha' hb'

/-- A chain that was checked orders all its views. -/
lemma pinExtends_of_chain (hS : S.InjOn fun p => nodeHash p.1 p.2) {prepared : Prepared}
    (h : run.checkPrepared prepared = .ok ())
    (hwithin : ∀ p ∈ run.chainHashes prepared.chain, p ∈ S) {a b : CheckpointPin}
    (ha : a ∈ prepared.chain) (hb : b ∈ prepared.chain) (hle : a.treeSize ≤ b.treeSize) :
    PinExtends S a b := by
  have hchain : List.IsChain (PinExtends S) prepared.chain := by
    unfold checkPrepared at h
    cases hc : prepared.chain with
    | nil => exact .nil
    | cons front rest =>
      rw [hc] at h hwithin
      exact checkChain_isChain h hwithin
  have : IsTrans CheckpointPin (PinExtends S) := ⟨fun _ _ _ h h' => Extends.trans hS h h'⟩
  rcases rel_of_pairwise hchain.pairwise ha hb with rfl | hab | hba
  · exact .refl _ _
  · exact hab
  · -- the views have one size, so the link the other way says that they are equal
    have hsize : a.treeSize = b.treeSize :=
      UInt64.le_antisymm hle (UInt64.le_iff_toNat_le.mpr hba.le)
    unfold PinExtends at hba ⊢
    rw [hsize] at hba ⊢
    rw [hba.eq_of_size]
    exact .refl _ _

/-! ## The quorum of a run -/

/-- What counts for a quorum: a large enough head, and a valid signature by a key of the policy. -/
structure Counts (crypto : Crypto) (run : ClientRun) (snapshot : CheckpointPin)
    (p : Text × WitnessStatement) : Prop where
  keyId : p.1 = p.2.signature.keyId
  head : snapshot.treeSize ≤ p.2.headTreeSize
  signed : ∃ key, key ∈ run.policy.witnessKeys.filterMap crypto.parsePublicKey ∧
    publicKeyId key = p.1 ∧
    crypto.verifyDetached key (witnessStatementSignatureInput p.2) p.2.signature.signature = true

lemma counts_of_countedReply {snapshot : CheckpointPin} {reply : WitnessReply}
    {statement : WitnessStatement}
    (h : run.countedReply crypto snapshot reply = .ok statement) :
    Counts crypto run snapshot (statement.signature.keyId, statement) := by
  unfold countedReply at h
  split at h
  · simp at h
  · rename_i parsed _
    split at h
    · rename_i hchecks
      cases hsig : verifyWitnessStatementSignature crypto parsed run.policy.witnessKeys with
      | error message =>
        rw [hsig] at h
        simp [Except.map] at h
      | ok _ =>
        rw [hsig] at h
        obtain rfl := Except.ok.inj h
        refine ⟨rfl, hchecks.2.2.2.2, ?_⟩
        unfold verifyWitnessStatementSignature at hsig
        split at hsig
        · simp at hsig
        · unfold verifyThreshold at hsig
          split at hsig
          · simp at hsig
          · rename_i hlen
            dsimp only at hlen
            obtain ⟨key, hkey⟩ := List.exists_mem_of_length_pos (Nat.pos_of_ne_zero
              fun hzero => hlen (by rw [hzero]; omega))
            obtain ⟨text, htext, hkey⟩ := List.mem_filterMap.mp hkey
            obtain ⟨hparse, -, signature, hmem, hid, hverify⟩ := acceptedKey_eq_some hkey
            obtain rfl := List.mem_singleton.mp hmem
            exact ⟨key, List.mem_filterMap.mpr ⟨text, htext, hparse⟩, hid.symm, hverify⟩
    · simp at h

/-- The statements collected all count, and no key has two of them. -/
lemma foldl_collect_spec {snapshot : CheckpointPin} (replies : List WitnessReply)
    (collected : Collected) (hnodup : (collected.statements.map Prod.fst).Nodup)
    (hcounts : ∀ p ∈ collected.statements, Counts crypto run snapshot p) :
    ((replies.foldl (run.collect crypto snapshot) collected).statements.map Prod.fst).Nodup ∧
      ∀ p ∈ (replies.foldl (run.collect crypto snapshot) collected).statements,
        Counts crypto run snapshot p := by
  induction replies generalizing collected with
  | nil => exact ⟨hnodup, hcounts⟩
  | cons reply replies ih =>
    rw [List.foldl_cons]
    apply ih
    · unfold collect
      split
      · dsimp only
        split
        · exact hnodup
        · rename_i statement _ hnew
          rw [List.map_append, List.map_singleton, List.nodup_append]
          refine ⟨hnodup, List.nodup_singleton _, fun k hk k' hk' => ?_⟩
          rw [List.mem_singleton] at hk'
          rintro rfl
          refine hnew ?_
          obtain ⟨p, hp, hpk⟩ := List.mem_map.mp hk
          exact List.lookup_isSome_iff.mpr ⟨p, hp, by rw [hpk, hk']; simp⟩
      · split <;> exact hnodup
    · unfold collect
      split
      · rename_i statement hcounted
        dsimp only
        split
        · exact hcounts
        · intro p hp
          rw [List.mem_append, List.mem_singleton] at hp
          rcases hp with hp | rfl
          · exact hcounts p hp
          · exact counts_of_countedReply hcounted
      · split <;> exact hcounts

lemma quorum_spec (crypto : Crypto) (run : ClientRun) (snapshot : CheckpointPin) :
    ((run.quorum crypto snapshot).statements.map Prod.fst).Nodup ∧
      ∀ p ∈ (run.quorum crypto snapshot).statements, Counts crypto run snapshot p :=
  foldl_collect_spec _ {} List.nodup_nil (by simp)

/-! ## What an accepted run has checked -/

lemma prepare_spec {audit : Option AuditCheckpoint} {prepared : Prepared}
    (h : run.prepare crypto audit = .ok prepared) :
    prepared.statements = (run.quorum crypto prepared.snapshot).statements ∧
      run.policy.witnessThreshold ≤ prepared.statements.length ∧
      ∃ minimum live,
        prepared.chain = chain minimum prepared.snapshot live prepared.statements := by
  unfold prepare at h
  split at h
  · simp at h
  · rename_i minimum snapshot _
    split at h
    · simp at h
    · rename_i live _
      split at h
      · simp at h
      · split at h
        · simp at h
        · dsimp only at h
          split at h
          · simp at h
          · rename_i hquorum
            obtain rfl := Except.ok.inj h
            exact ⟨rfl, by simpa using hquorum, minimum, pin live, rfl⟩

/-- An accepted run with a threshold: its quorum, and that every head in it extends the snapshot. -/
theorem extends_head (hS : S.InjOn fun p => nodeHash p.1 p.2) {view : ClientView}
    (hwithin : ∀ p ∈ run.hashes crypto, p ∈ S) (hthreshold : run.policy.witnessThreshold ≠ 0)
    (h : verifyRegistryClientView crypto run = .ok view) :
    ∃ statements : List (Text × WitnessStatement),
      run.policy.witnessThreshold ≤ statements.length ∧
      (statements.map Prod.fst).Nodup ∧
      ∀ p ∈ statements, Counts crypto run view.checkpoint p ∧
        Extends nodeHash S view.checkpoint.treeSize.toNat p.2.headTreeSize.toNat
          view.checkpoint.rootHash p.2.headRootHash := by
  unfold verifyRegistryClientView at h
  unfold hashes at hwithin
  cases htrust : run.trust with
  | error message => simp [htrust] at h
  | ok audit =>
    rw [htrust] at h hwithin
    dsimp only at h hwithin
    rw [if_neg hthreshold] at h
    cases hprepare : run.prepare crypto audit with
    | error message => simp [hprepare] at h
    | ok prepared =>
      rw [hprepare] at h hwithin
      dsimp only at h hwithin
      cases hcheck : run.checkPrepared prepared with
      | error message => simp [hcheck] at h
      | ok _ =>
        rw [hcheck] at h
        cases hpersist : run.persist with
        | error message => simp [hpersist, Except.map] at h
        | ok _ =>
          rw [hpersist] at h
          obtain rfl := Except.ok.inj h
          obtain ⟨hstatements, hlen, minimum, live, hchain⟩ := prepare_spec hprepare
          obtain ⟨hnodup, hcounts⟩ := quorum_spec crypto run prepared.snapshot
          rw [← hstatements] at hnodup hcounts
          refine ⟨prepared.statements, hlen, hnodup, fun p hp => ⟨hcounts p hp, ?_⟩⟩
          have hmem : ∀ a ∈ [minimum, prepared.snapshot, live] ++
              prepared.statements.map (fun p => headPin p.2), a ∈ prepared.chain := by
            intro a ha
            rw [hchain]
            exact mem_dropRepeats ((List.mem_insertionSort _).mpr ha)
          refine pinExtends_of_chain hS hcheck hwithin (a := prepared.snapshot)
            (b := headPin p.2) (hmem _ (by simp)) (hmem _ ?_) (hcounts p hp).head
          exact List.mem_append_right _ (List.mem_map_of_mem hp)

end ClientRun

/-! ## Two runs -/

/-- The distinct keys of a policy. -/
def witnessKeySet (crypto : Crypto) (keys : List Text) : Finset Bytes :=
  (keys.filterMap crypto.parsePublicKey).toFinset

/-- The keys behind a quorum are as many as its statements. -/
lemma exists_quorumKeys {run : ClientRun} {snapshot : CheckpointPin}
    {statements : List (Text × WitnessStatement)} (hnodup : (statements.map Prod.fst).Nodup)
    (hcounts : ∀ p ∈ statements, ClientRun.Counts crypto run snapshot p) :
    ∃ Q ⊆ witnessKeySet crypto run.policy.witnessKeys, statements.length ≤ Q.card ∧
      ∀ key ∈ Q, ∃ p ∈ statements,
        crypto.verifyDetached key (witnessStatementSignatureInput p.2)
          p.2.signature.signature = true := by
  classical
  let Q := (witnessKeySet crypto run.policy.witnessKeys).filter fun key =>
    ∃ p ∈ statements, publicKeyId key = p.1 ∧
      crypto.verifyDetached key (witnessStatementSignatureInput p.2) p.2.signature.signature = true
  have hids : (statements.map Prod.fst).toFinset ⊆ Q.image publicKeyId := by
    intro id hid
    obtain ⟨p, hp, rfl⟩ := List.mem_map.mp (List.mem_toFinset.mp hid)
    obtain ⟨key, hkey, hkeyId, hverify⟩ := (hcounts p hp).signed
    refine Finset.mem_image.mpr ⟨key, Finset.mem_filter.mpr ⟨?_, p, hp, hkeyId, hverify⟩, hkeyId⟩
    exact List.mem_toFinset.mpr hkey
  refine ⟨Q, Finset.filter_subset _ _, ?_, ?_⟩
  · calc statements.length = (statements.map Prod.fst).toFinset.card := by
          rw [List.toFinset_card_of_nodup hnodup, List.length_map]
      _ ≤ (Q.image publicKeyId).card := Finset.card_le_card hids
      _ ≤ Q.card := Finset.card_image_le
  · intro key hkey
    obtain ⟨-, p, hp, -, hverify⟩ := Finset.mem_filter.mp hkey
    exact ⟨p, hp, hverify⟩

/-- Two quorums share a key that does not deviate. -/
lemma exists_common_key {K Q R D : Finset Bytes} {t : ℕ} (hQ : Q ⊆ K) (hR : R ⊆ K)
    (hq : t ≤ Q.card) (hr : t ≤ R.card) (hfew : D.card < 2 * t - K.card) :
    ∃ key, key ∈ Q ∧ key ∈ R ∧ key ∉ D := by
  have hunion : (Q ∪ R).card ≤ K.card := Finset.card_le_card (Finset.union_subset hQ hR)
  have hinter := Finset.card_union_add_card_inter Q R
  obtain ⟨key, hmem, hnot⟩ := Finset.exists_mem_notMem_of_card_lt_card
    (s := D) (t := Q ∩ R) (by omega)
  obtain ⟨hq', hr'⟩ := Finset.mem_inter.mp hmem
  exact ⟨key, hq', hr', hnot⟩

/-- A head named in a signed statement of a witness is extended by the head that it keeps. -/
lemma named_of_signed (hS : S.InjOn fun p => nodeHash p.1 p.2) {config : WitnessConfig}
    {keyId : Text} {calls : List WitnessCall}
    (hwithin : WitnessStore.Within S ⟨config, keyId, {}, false⟩ calls)
    {statement released : WitnessStatement}
    (hreleased : WitnessStore.Released ⟨config, keyId, {}, false⟩ calls released)
    (htext : witnessStatementSignatureInput released = witnessStatementSignatureInput statement) :
    ∃ head, (WitnessStore.observeAll ⟨config, keyId, {}, false⟩ calls).2.database.head =
        some head ∧ head.Over S statement.headTreeSize statement.headRootHash := by
  obtain ⟨head, hhead, hunder⟩ :=
    hreleased.under hS (WitnessStore.sound_empty config keyId) hwithin
  refine ⟨head, hhead, ?_⟩
  have hnamed := hunder.named
  rw [signatureInput_inj htext] at hnamed
  exact hnamed

/-- The key of the only witness, and its text. -/
def loneKey : Bytes :=
  [3, 161, 7, 191, 243, 206, 16, 190, 29, 112, 221, 24, 231, 75, 192, 153, 103, 228, 214, 48, 155,
    165, 13, 95, 29, 220, 134, 100, 18, 85, 49, 184]

def loneKeyText : Text := "ed25519:A6EHv/POEL4dcN0Y50vAmWfk1jCbpQ1fHdyGZBJVMbg=".toList

/-- The witness is shown a log of one entry. -/
def loneCall : WitnessCall :=
  { WitnessStore.growingCall 1 (sha256Hex [0]) [] with
    sign := fun _ => .ok [⟨publicKeyId loneKey,
      ("ed25519:Zi4AyPXC5gyb3qTDGZiWcEkNUvArO2xIurbjGHO9selh" ++
        "+vSVQmjAhERUJn/DPeB7wCpCtSfW/E5grkElBIzlCA==").toList⟩] }

def loneStatements : List WitnessStatement :=
  (WitnessStore.observeAll ⟨WitnessStore.growingConfig, publicKeyId loneKey, {}, false⟩
    [loneCall]).1

/-- The library, as far as it is asked here: the text decodes to the key, and the signature on the
one statement is valid. -/
def loneCrypto : Crypto where
  parsePublicKey text := if text = loneKeyText then some loneKey else none
  verifyDetached key payload signature :=
    key == loneKey && loneStatements.any fun statement =>
      payload == witnessStatementSignatureInput statement &&
        signature == statement.signature.signature

/-- A client that asks the witness. -/
def loneRun : ClientRun where
  registryName := "registry".toList
  policy := ⟨"https://registry".toList, ["https://witness".toList], [loneKeyText], 1⟩
  minimumCheckpoint := none
  trust := .ok (some loneCall.observation.checkpoint)
  liveCheckpoint := .ok loneCall.observation.checkpoint
  rootChain := .ok ()
  reply _ :=
    ⟨.ok (loneStatements.flatMap renderWitnessStatement), .error "witness is not asked again"⟩
  fetchProof _ _ := .ok []
  persist := .ok ()

lemma lone_follows : Follows loneCrypto ∅ loneKey := by
  refine ⟨WitnessStore.growingConfig, publicKeyId loneKey, [loneCall], ⟨?_, trivial⟩, ?_⟩
  · intro p hp
    exact absurd hp (List.not_mem_nil)
  · intro payload signature hverify
    simp only [loneCrypto, Bool.and_eq_true, List.any_eq_true, beq_iff_eq] at hverify
    obtain ⟨-, statement, hmem, htext, -⟩ := hverify
    exact ⟨statement, .inl hmem, htext.symm⟩

/-- The run is accepted with the snapshot it was given, and checks no proof on the way. -/
lemma lone_accepted :
    ((verifyRegistryClientView loneCrypto loneRun).toOption.map ClientView.checkpoint) =
        some (pin loneCall.observation.checkpoint) ∧
      loneRun.hashes loneCrypto = [] := by
  decide +kernel

lemma card_loneKeySet : (witnessKeySet loneCrypto loneRun.policy.witnessKeys).card = 1 := by
  have hkeys : loneRun.policy.witnessKeys.filterMap loneCrypto.parsePublicKey = [loneKey] := by
    show [loneKeyText].filterMap (fun text => if text = loneKeyText then some loneKey else none) = _
    rw [List.filterMap_cons, if_pos rfl, List.filterMap_nil]
  rw [witnessKeySet, hkeys]
  exact Finset.card_singleton loneKey

lemma eq_ok_of_toOption {α : Type} {x : Except String α} {a : α} (h : x.toOption = some a) :
    x = .ok a := by
  cases x with
  | error message => simp [Except.toOption] at h
  | ok b => exact congrArg Except.ok (Option.some.inj h)

end Registry

end Chtholly
