import Mathlib.Data.Finset.Card
import Chtholly.Registry.MetadataRoundTrip
import Chtholly.Registry.TrustVerification

/-!
# Trust is never rolled back

Whatever checkouts and clocks the calls of any number of processes see, the versions that are kept
for a registry only grow, and a root that is accepted has a chain of signed roots behind it that
starts at the keys of the request.

## Main definitions

* `Registry.SignedBy` — enough distinct keys of a role have signed a text.
* `Registry.Backs` — a chain of roots, each signed by the one before it and by itself.
* `Registry.Accepted` — what holds of a value that a call returned.

## Main results

* `Registry.verifyRegistryRootChain_backs` — the root of a chain that is accepted is backed.
* `Registry.TrustStore.run_noRollback` — no run rolls trust back.
-/

set_option autoImplicit false

namespace Chtholly

namespace Registry

section Signed

variable (crypto : Crypto) (signed : Bytes → Text → Prop)

/-- Enough distinct keys of a role, none of them revoked, have signed a text. -/
def SignedBy (role : TrustRole) (revoked : List Text) (payload : Text) : Prop :=
  0 < role.threshold ∧ ∃ keys : Finset Bytes, role.threshold ≤ keys.card ∧ ∀ key ∈ keys,
    (∃ text ∈ role.keys, crypto.parsePublicKey text = some key) ∧ publicKeyId key ∉ revoked ∧
      signed key payload

/-- A chain of roots from a version on, after a role and a list of revoked keys. -/
def Backs (version : ℕ) (role : TrustRole) (revoked : List Text) : List RootMetadata → Prop
  | [] => True
  | root :: rest =>
    root.version.toNat = version ∧ revoked ⊆ root.revokedKeyIds ∧
      SignedBy crypto signed role revoked (rootPayload root) ∧
      SignedBy crypto signed root.root root.revokedKeyIds (rootPayload root) ∧
      Backs (version + 1) root.root root.revokedKeyIds rest

/-- A root with a chain behind it that starts at the bootstrap keys of a request. -/
def Backed (request : TrustRequest) (root : RootMetadata) : Prop :=
  ∃ chain : List RootMetadata, chain.getLast? = some root ∧
    chain.length = root.version.toNat ∧
    Backs crypto signed 1 ⟨request.bootstrapRootKeys, request.bootstrapRootThreshold⟩ [] chain

/-- What holds of a value that a call returned. -/
structure Accepted (request : TrustRequest) (trust : VerifiedTrust) : Prop where
  backed : Backed crypto signed request trust.root
  rootVersion : trust.root.version ≠ 0
  snapshotVersion : trust.snapshot.version ≠ 0
  timestampVersion : trust.timestamp.version ≠ 0
  rootDigest : trust.rootSha256 = sha256Hex (Text.bytes (renderRootMetadata trust.root))
  snapshotDigest :
    trust.snapshotSha256 = sha256Hex (Text.bytes (renderSnapshotMetadata trust.snapshot))
  timestampDigest :
    trust.timestampSha256 = sha256Hex (Text.bytes (renderTimestampMetadata trust.timestamp))

end Signed

/-! ## The chain of roots -/

section Chain

variable {crypto : Crypto} {signed : Bytes → Text → Prop}

lemma subset_of_includes {a b : List Text} (h : includes a b = true) : b ⊆ a := by
  induction a, b using includes.induct with
  | case1 a => exact List.nil_subset a
  | case2 b bs => simp [includes] at h
  | case3 a as b bs hlt => simp [includes, hlt] at h
  | case4 a as b bs hlt hgt ih =>
    rw [includes, if_neg hlt, if_pos hgt] at h
    exact List.subset_cons_of_subset a (ih h)
  | case5 a as b bs hlt hgt ih =>
    rw [includes, if_neg hlt, if_neg hgt] at h
    obtain rfl : a = b := List.le_antisymm (List.not_lt.mp hlt) (List.not_lt.mp hgt)
    exact List.cons_subset_cons a (ih h)

variable {role : TrustRole} {revoked : List Text}

lemma SignedBy.mono {role' : TrustRole} {payload : Text}
    (h : SignedBy crypto signed role revoked payload) (hkeys : role.keys ⊆ role'.keys)
    (hthreshold : role'.threshold = role.threshold) :
    SignedBy crypto signed role' revoked payload := by
  obtain ⟨hpos, keys, hcard, hall⟩ := h
  refine ⟨hthreshold ▸ hpos, keys, hthreshold ▸ hcard, fun key hkey => ?_⟩
  obtain ⟨⟨text, htext, hparse⟩, hrest⟩ := hall key hkey
  exact ⟨⟨text, hkeys htext, hparse⟩, hrest⟩

/-- The first role of a chain may be exchanged for one with more keys. -/
lemma Backs.mono {version : ℕ} {role' : TrustRole} {chain : List RootMetadata}
    (h : Backs crypto signed version role revoked chain) (hkeys : role.keys ⊆ role'.keys)
    (hthreshold : role'.threshold = role.threshold) :
    Backs crypto signed version role' revoked chain := by
  cases chain with
  | nil => exact trivial
  | cons root rest =>
    obtain ⟨hversion, hrevoked, hbefore, hrest⟩ := h
    exact ⟨hversion, hrevoked, hbefore.mono hkeys hthreshold, hrest⟩

variable (hforge : ∀ key payload signature, crypto.verifyDetached key payload signature = true →
    signed key payload)
  (hkeys : ∀ a b key, crypto.parsePublicKey a = some key → crypto.parsePublicKey b = some key →
    a = b)

include hforge hkeys in
/-- The keys that are counted are distinct: two texts of a role decode to two keys. -/
lemma signedBy_of_verifyThreshold {payload : Text} {signatures : List MetadataSignature}
    (hrole : role.Valid) (h : verifyThreshold crypto payload signatures role revoked = .ok ()) :
    SignedBy crypto signed role revoked payload := by
  set accepted := role.keys.filterMap (acceptedKey crypto payload signatures revoked) with hdef
  have hnodup : accepted.Nodup := by
    refine List.Nodup.filterMap (fun a b key ha hb => ?_) hrole.nodup
    exact hkeys a b key (acceptedKey_eq_some ha).1 (acceptedKey_eq_some hb).1
  unfold verifyThreshold at h
  split at h
  · simp at h
  · rename_i henough
    refine ⟨hrole.positive, accepted.toFinset, ?_, fun key hkey => ?_⟩
    · rw [List.toFinset_card_of_nodup hnodup]
      exact Nat.not_lt.mp henough
    · obtain ⟨text, htext, haccept⟩ := List.mem_filterMap.mp (List.mem_toFinset.mp hkey)
      obtain ⟨hparse, hrevoked, signature, -, -, hverify⟩ := acceptedKey_eq_some haccept
      exact ⟨⟨text, htext, hparse⟩, hrevoked, hforge _ _ _ hverify⟩

variable {request : TrustRequest} {version : UInt64}

include hforge hkeys in
/-- One root of the chain. -/
lemma verifyRoot_spec {file : Except String Text} {root : RootMetadata} (hrole : role.Valid)
    (h : verifyRoot crypto request version role revoked file = .ok root) :
    root.version = version ∧ version ≠ 0 ∧ root.root.Valid ∧ revoked ⊆ root.revokedKeyIds ∧
      SignedBy crypto signed role revoked (rootPayload root) ∧
      SignedBy crypto signed root.root root.revokedKeyIds (rootPayload root) := by
  obtain ⟨text, -, h⟩ := except_bind_eq_ok.mp h
  obtain ⟨parsed, hparse, h⟩ := except_bind_eq_ok.mp h
  obtain ⟨hne, hvalid⟩ := parseRootMetadata_spec hparse
  split at h
  · simp at h
  · rename_i hsame
    simp only [not_or, ne_eq, Decidable.not_not, Bool.not_eq_false] at hsame
    obtain ⟨-, hversion, hincludes⟩ := hsame
    dsimp only at h
    split at h
    · simp at h
    · rename_i hsigned
      obtain rfl := Except.ok.inj h
      obtain ⟨⟨⟩, hbefore, hself⟩ := except_bind_eq_ok.mp hsigned
      exact ⟨hversion, hversion ▸ hne, hvalid, subset_of_includes hincludes,
        signedBy_of_verifyThreshold hforge hkeys hrole hbefore,
        signedBy_of_verifyThreshold hforge hkeys hvalid hself⟩

lemma toNat_succ (h : version + 1 ≠ 0) : (version + 1).toNat = version.toNat + 1 := by
  have hne : (version + 1).toNat ≠ 0 := fun h0 => h (UInt64.toNat_inj.mp h0)
  have hlt := version.toNat_lt
  rw [UInt64.toNat_add, UInt64.toNat_one] at hne ⊢
  omega

include hforge hkeys in
/-- The loop over the root files gives the last root of a chain. -/
lemma rootLoop_spec {files : List (Except String Text)} {current root : RootMetadata}
    (hrole : role.Valid)
    (h : rootLoop crypto request version role revoked current files = .ok root) :
    ∃ chain : List RootMetadata, Backs crypto signed version.toNat role revoked chain ∧
      (current :: chain).getLast? = some root ∧
      (chain ≠ [] → version ≠ 0 ∧ root.version.toNat + 1 = version.toNat + chain.length) := by
  induction files generalizing version role revoked current with
  | nil =>
    obtain rfl := Except.ok.inj h
    exact ⟨[], trivial, rfl, fun hne => absurd rfl hne⟩
  | cons file rest ih =>
    unfold rootLoop at h
    split at h
    · simp at h
    · rename_i next hnext
      obtain ⟨hversion, hzero, hvalid, hrevoked, hbefore, hself⟩ :=
        verifyRoot_spec hforge hkeys hrole hnext
      obtain ⟨chain, hbacks, hlast, hcount⟩ := ih hvalid h
      refine ⟨next :: chain, ⟨by rw [hversion], hrevoked, hbefore, hself, ?_⟩, ?_, fun _ => ?_⟩
      · -- the counter wraps to zero only where no further root is accepted
        cases chain with
        | nil => exact trivial
        | cons _ _ =>
          rw [← toNat_succ (hcount (List.cons_ne_nil _ _)).1]
          exact hbacks
      · rw [List.getLast?_cons_cons]
        exact hlast
      · refine ⟨hzero, ?_⟩
        cases chain with
        | nil =>
          obtain rfl : next = root := Option.some.inj hlast
          rw [hversion, List.length_singleton]
        | cons _ _ =>
          obtain ⟨hsucc, hroot⟩ := hcount (List.cons_ne_nil _ _)
          rw [hroot, toNat_succ hsucc, List.length_cons (a := next)]
          omega

include hforge hkeys in
/-- The root of a chain that is accepted is backed by a chain from the bootstrap keys on. -/
theorem verifyRegistryRootChain_backs {clock : Int64} {files : List (Except String Text)}
    {verified : VerifiedRoot}
    (h : verifyRegistryRootChain crypto request clock files = .ok verified) :
    Backed crypto signed request verified.root ∧ verified.root.version ≠ 0 ∧
      verified.rootSha256 = sha256Hex (Text.bytes (renderRootMetadata verified.root)) := by
  unfold verifyRegistryRootChain at h
  split at h
  · simp at h
  · split at h
    · simp at h
    · rename_i bootstrap hbootstrap
      obtain ⟨hrole, hsub, hthreshold⟩ := validRole_spec hbootstrap
      obtain ⟨current, hloop, h⟩ := except_bind_eq_ok.mp h
      split at h
      · simp at h
      · rename_i hzero
        split at h
        · simp at h
        · obtain rfl := Except.ok.inj h
          obtain ⟨chain, hbacks, hlast, hcount⟩ :=
            rootLoop_spec hforge hkeys hrole hloop
          have hne : chain ≠ [] := by
            rintro rfl
            rw [← Option.some.inj hlast] at hzero
            exact hzero rfl
          have hone : (1 : UInt64).toNat = 1 := UInt64.toNat_one
          have hlength : chain.length = current.version.toNat := by
            have := (hcount hne).2
            omega
          refine ⟨⟨chain, ?_, hlength, ?_⟩, hzero, by dsimp only⟩
          · rwa [List.getLast?_cons_of_ne_nil hne] at hlast
          · rw [hone] at hbacks
            exact hbacks.mono hsub hthreshold.symm

/-! ## The two calls -/

variable {state : TrustState}

lemma checkRollbacks_precedes {next : TrustState} (h : checkRollbacks next state = .ok ())
    (hroot : next.rootVersion ≠ 0) (hsnapshot : next.snapshotVersion ≠ 0)
    (htimestamp : next.timestampVersion ≠ 0)
    (htime : state.lastVerifiedTime ≤ next.lastVerifiedTime) : state.Precedes next := by
  obtain ⟨⟨⟩, hr, h⟩ := except_bind_eq_ok.mp h
  obtain ⟨⟨⟩, hs, ht⟩ := except_bind_eq_ok.mp h
  exact precedes_of_checkRollback hr hs ht hroot hsnapshot htimestamp htime

lemma readFreshness_versions {checkout : Checkout} {snapshot : SnapshotMetadata}
    {timestamp : TimestampMetadata}
    (h : readFreshness request checkout = .ok (snapshot, timestamp)) :
    snapshot.version ≠ 0 ∧ timestamp.version ≠ 0 := by
  obtain ⟨timestampText, -, h⟩ := except_bind_eq_ok.mp h
  obtain ⟨snapshotText, -, h⟩ := except_bind_eq_ok.mp h
  obtain ⟨timestamp', htimestamp, h⟩ := except_bind_eq_ok.mp h
  obtain ⟨snapshot', hsnapshot, h⟩ := except_bind_eq_ok.mp h
  obtain ⟨rfl, rfl⟩ := Prod.mk.inj (Except.ok.inj h)
  exact ⟨parseSnapshotMetadata_version hsnapshot, parseTimestampMetadata_version htimestamp⟩

variable {trust : VerifiedTrust}

lemma Accepted.readable {time : Int64} (h : Accepted crypto signed request trust)
    (htime : 0 ≤ time) : (trust.state time).Readable where
  root := by
    show isHexDigest trust.rootSha256 = true
    rw [h.rootDigest]
    exact isHexDigest_sha256Hex _
  snapshot := by
    show isHexDigest trust.snapshotSha256 = true
    rw [h.snapshotDigest]
    exact isHexDigest_sha256Hex _
  timestamp := by
    show isHexDigest trust.timestampSha256 = true
    rw [h.timestampDigest]
    exact isHexDigest_sha256Hex _
  time := htime

/-- What is accepted rolls nothing back, if it passes the comparisons. -/
lemma Accepted.precedes {time : Int64} (h : Accepted crypto signed request trust)
    (hcheck : checkRollbacks (trust.state time) state = .ok ())
    (htime : state.lastVerifiedTime ≤ time) : state.Precedes (trust.state time) :=
  checkRollbacks_precedes hcheck h.rootVersion h.snapshotVersion h.timestampVersion htime

lemma le_max_time (a b : Int64) : b ≤ max a b := by
  rw [show max a b = if a ≤ b then b else a from rfl]
  split
  · exact Int64.le_refl b
  · rename_i h
    exact Int64.le_of_lt (Int64.not_le.mp h)

include hforge hkeys in
/-- What the checks of `verifyRegistryTrust` let through. -/
lemma acceptTrust_spec {chainClock clock : Int64} {checkout : Checkout} {next : TrustState}
    (h : acceptTrust crypto request chainClock clock checkout state = .ok (trust, next)) :
    Accepted crypto signed request trust ∧
      next = trust.state (max (request.now clock) state.lastVerifiedTime) ∧
      checkRollbacks next state = .ok () := by
  obtain ⟨verified, hverified, h⟩ := except_bind_eq_ok.mp h
  obtain ⟨⟨snapshot, timestamp⟩, hfresh, h⟩ := except_bind_eq_ok.mp h
  obtain ⟨hbacked, hroot, hdigest⟩ := verifyRegistryRootChain_backs hforge hkeys hverified
  obtain ⟨hsnapshot, htimestamp⟩ := readFreshness_versions hfresh
  dsimp only at h
  split at h
  · simp at h
  · obtain ⟨⟨⟩, -, h⟩ := except_bind_eq_ok.mp h
    obtain ⟨⟨⟩, -, h⟩ := except_bind_eq_ok.mp h
    obtain ⟨checkpoint, -, h⟩ := except_bind_eq_ok.mp h
    split at h
    · simp at h
    · obtain ⟨⟨⟩, hcheck, h⟩ := except_bind_eq_ok.mp h
      obtain ⟨packages, -, h⟩ := except_bind_eq_ok.mp h
      split at h
      · simp at h
      · obtain ⟨htrust, hnext⟩ := Prod.mk.inj (Except.ok.inj h)
        subst htrust
        refine ⟨⟨hbacked, hroot, hsnapshot, htimestamp, hdigest, ?_, ?_⟩, hnext.symm, ?_⟩
        · dsimp only
        · dsimp only
        · rw [← hnext]
          exact hcheck

variable {file : Option Text}

lemma loadState_anywhere {path : Text} (h : loadState path file = .ok state) (path' : Text) :
    loadState path' file = .ok state := by
  unfold loadState at h ⊢
  split at h
  · exact h
  · split at h
    · exact h
    · simp at h

lemma loadState_of_openState {access : Access} {path : Text}
    (h : openState access path file = .ok state) : loadState path file = .ok state := by
  obtain ⟨⟨⟩, -, h⟩ := except_bind_eq_ok.mp h
  split at h
  · obtain ⟨⟨⟩, -, h⟩ := except_bind_eq_ok.mp h
    exact h
  · exact h

/-- A file of a state is replaced by what is kept of accepted metadata. -/
structure Replaces (file file' : Option Text) (trust : VerifiedTrust) (state : TrustState)
    (time : Int64) : Prop where
  loads : ∀ path, loadState path file = .ok state
  text : file' = some (stateText (trust.state time))
  readable : (trust.state time).Readable
  precedes : state.Precedes (trust.state time)

lemma Accepted.replaces {request' : TrustRequest} {access : Access}
    (h : Accepted crypto signed request trust)
    (hopen : openState access request'.statePath file = .ok state)
    (hcheck : checkRollbacks
      (trust.state (max (request'.now access.clock) state.lastVerifiedTime)) state = .ok ()) :
    Replaces file
      (some (stateText (trust.state (max (request'.now access.clock) state.lastVerifiedTime))))
      trust state (max (request'.now access.clock) state.lastVerifiedTime) := by
  have hload := loadState_of_openState hopen
  have htime := le_max_time (request'.now access.clock) state.lastVerifiedTime
  exact ⟨loadState_anywhere hload, rfl,
    h.readable (Int64.le_trans (loadState_time hload) htime), h.precedes hcheck htime⟩

include hforge hkeys in
/-- What a call of `verifyRegistryTrust` can do. -/
lemma verifyRegistryTrust_cases (request : TrustRequest) (access : Access) (chainClock : Int64)
    (checkout : Checkout) (file : Option Text) :
    (∀ trust, (verifyRegistryTrust crypto request access chainClock checkout file).1 = .ok trust →
      Accepted crypto signed request trust) ∧
    ((verifyRegistryTrust crypto request access chainClock checkout file).2 = file ∨
      ∃ trust state time,
        (verifyRegistryTrust crypto request access chainClock checkout file).1 = .ok trust ∧
        Replaces file (verifyRegistryTrust crypto request access chainClock checkout file).2
          trust state time) := by
  unfold verifyRegistryTrust
  split
  · exact ⟨fun _ h => (nomatch h), .inl rfl⟩
  · split
    · exact ⟨fun _ h => (nomatch h), .inl rfl⟩
    · rename_i state hopen
      split
      · exact ⟨fun _ h => (nomatch h), .inl rfl⟩
      · rename_i trust next haccept
        obtain ⟨haccepted, rfl, hcheck⟩ := acceptTrust_spec hforge hkeys haccept
        have hreturn : ∀ trust' : VerifiedTrust,
            (Except.ok trust : Except String VerifiedTrust) = .ok trust' →
            Accepted crypto signed request trust' := by
          intro trust' heq
          rw [← Except.ok.inj heq]
          exact haccepted
        split
        · split
          · exact ⟨fun _ h => (nomatch h), .inl rfl⟩
          · exact ⟨hreturn, .inr ⟨trust, state, _, rfl, haccepted.replaces hopen hcheck⟩⟩
        · exact ⟨hreturn, .inl rfl⟩

/-- What a commit of an accepted value can do. -/
lemma commitVerifiedRegistryTrust_cases {request' : TrustRequest}
    (h : Accepted crypto signed request' trust) (request : TrustRequest) (access : Access)
    (file : Option Text) :
    (commitVerifiedRegistryTrust request trust access file).2 = file ∨
      ∃ state time,
        Replaces file (commitVerifiedRegistryTrust request trust access file).2 trust state time := by
  unfold commitVerifiedRegistryTrust
  split
  · exact .inl rfl
  · split
    · exact .inl rfl
    · rename_i state hopen
      dsimp only
      split
      · exact .inl rfl
      · rename_i hcheck
        split
        · exact .inl rfl
        · exact .inr ⟨state, _, h.replaces hopen hcheck⟩

/-! ## Runs -/

namespace TrustStore

variable {ι : Type}

/-- What holds in a run that started with given files: every value that was returned is accepted,
and every file is an old one or was written from a returned value. -/
structure Sound (crypto : Crypto) (signed : Bytes → Text → Prop) (files : ι → Option Text)
    (store : TrustStore ι) : Prop where
  accepted : ∀ p ∈ store.returned, Accepted crypto signed p.1 p.2
  stored : ∀ place, store.files place = files place ∨ ∃ p ∈ store.returned, ∃ time,
    store.files place = some (stateText (p.2.state time)) ∧ (p.2.state time).Readable

/-- From `store` to `store'` no state of a file is rolled back. -/
def NoRollback (store store' : TrustStore ι) : Prop :=
  ∀ place path s, loadState path (store.files place) = .ok s →
    ∃ t, loadState path (store'.files place) = .ok t ∧ s.Precedes t

lemma NoRollback.refl (store : TrustStore ι) : NoRollback store store :=
  fun _ _ s hs => ⟨s, hs, .refl s⟩

lemma NoRollback.trans {a b c : TrustStore ι} (hab : NoRollback a b) (hbc : NoRollback b c) :
    NoRollback a c := by
  intro place path s hs
  obtain ⟨t, ht, hst⟩ := hab place path s hs
  obtain ⟨u, hu, htu⟩ := hbc place path t ht
  exact ⟨u, hu, hst.trans htu⟩

variable [DecidableEq ι]

variable {store : TrustStore ι} {returned : List (TrustRequest × VerifiedTrust)}

/-- A call that changes at most one file. -/
lemma noRollback_update {place : ι} {file : Option Text}
    (h : file = store.files place ∨
      ∃ trust state time, Replaces (store.files place) file trust state time) :
    NoRollback store ⟨Function.update store.files place file, returned⟩ := by
  intro other path s hs
  by_cases hplace : other = place
  · subst hplace
    show ∃ t, loadState path (Function.update store.files other file other) = .ok t ∧ _
    rw [Function.update_self]
    rcases h with rfl | ⟨trust, state, time, hreplaces⟩
    · exact ⟨s, hs, .refl s⟩
    · obtain rfl : state = s := Except.ok.inj ((hreplaces.loads path).symm.trans hs)
      refine ⟨trust.state time, ?_, hreplaces.precedes⟩
      rw [hreplaces.text]
      exact loadState_stateText hreplaces.readable path
  · show ∃ t, loadState path (Function.update store.files place file other) = .ok t ∧ _
    rw [Function.update_of_ne hplace]
    exact ⟨s, hs, .refl s⟩

variable {files : ι → Option Text}

lemma Sound.update {place : ι} {file : Option Text} (hsound : Sound crypto signed files store)
    (haccepted : ∀ p ∈ returned, Accepted crypto signed p.1 p.2)
    (hkeep : store.returned ⊆ returned)
    (h : file = store.files place ∨ ∃ p ∈ returned, ∃ state time,
      Replaces (store.files place) file p.2 state time) :
    Sound crypto signed files ⟨Function.update store.files place file, returned⟩ := by
  have hold : ∀ other, store.files other = files other ∨ ∃ p ∈ returned, ∃ time,
      store.files other = some (stateText (p.2.state time)) ∧ (p.2.state time).Readable := by
    intro other
    rcases hsound.stored other with hsame | ⟨p, hp, hrest⟩
    · exact .inl hsame
    · exact .inr ⟨p, hkeep hp, hrest⟩
  refine ⟨haccepted, fun other => ?_⟩
  by_cases hplace : other = place
  · subst hplace
    dsimp only
    rw [Function.update_self]
    rcases h with rfl | ⟨p, hp, state, time, hreplaces⟩
    · exact hold other
    · exact .inr ⟨p, hp, time, hreplaces.text, hreplaces.readable⟩
  · dsimp only
    rw [Function.update_of_ne hplace]
    exact hold other

include hforge hkeys in
/-- One call keeps the invariant and rolls nothing back. -/
lemma Sound.call (resolve : Text → ι) (hsound : Sound crypto signed files store) (c : TrustCall) :
    Sound crypto signed files (store.call crypto resolve c) ∧
      NoRollback store (store.call crypto resolve c) := by
  cases c with
  | verify request access chainClock checkout =>
    obtain ⟨haccepted, hfile⟩ := verifyRegistryTrust_cases hforge hkeys request access chainClock
      checkout (store.files (resolve request.statePath))
    refine ⟨hsound.update ?_ (List.subset_append_left _ _) ?_, noRollback_update ?_⟩
    · intro p hp
      rcases List.mem_append.mp hp with hp | hp
      · exact hsound.accepted p hp
      · split at hp
        · rename_i trust houtcome
          obtain rfl := List.mem_singleton.mp hp
          exact haccepted trust houtcome
        · exact absurd hp List.not_mem_nil
    · rcases hfile with hsame | ⟨trust, state, time, houtcome, hreplaces⟩
      · exact .inl hsame
      · refine .inr ⟨(request, trust), ?_, state, time, hreplaces⟩
        rw [houtcome]
        exact List.mem_append_right _ (List.mem_singleton_self _)
    · rcases hfile with hsame | ⟨trust, state, time, -, hreplaces⟩
      · exact .inl hsame
      · exact .inr ⟨trust, state, time, hreplaces⟩
  | commit request access index =>
    simp only [TrustStore.call]
    split
    · exact ⟨hsound, .refl store⟩
    · rename_i request' trust hreturned
      have hmem : (request', trust) ∈ store.returned := List.mem_of_getElem? hreturned
      have hfile := commitVerifiedRegistryTrust_cases (hsound.accepted _ hmem) request access
        (store.files (resolve request.statePath))
      refine ⟨hsound.update hsound.accepted (List.Subset.refl _) ?_, noRollback_update ?_⟩
      · rcases hfile with hsame | ⟨state, time, hreplaces⟩
        · exact .inl hsame
        · exact .inr ⟨(request', trust), hmem, state, time, hreplaces⟩
      · rcases hfile with hsame | ⟨state, time, hreplaces⟩
        · exact .inl hsame
        · exact .inr ⟨trust, state, time, hreplaces⟩

include hforge hkeys in
/-- Every run keeps the invariant and rolls nothing back. -/
lemma Sound.run (resolve : Text → ι) (hsound : Sound crypto signed files store)
    (calls : List TrustCall) :
    Sound crypto signed files (store.run crypto resolve calls) ∧
      NoRollback store (store.run crypto resolve calls) := by
  induction calls generalizing store with
  | nil => exact ⟨hsound, .refl store⟩
  | cons c calls ih =>
    obtain ⟨hnext, hstep⟩ := hsound.call hforge hkeys resolve c
    obtain ⟨hlast, hrest⟩ := ih hnext
    exact ⟨hlast, hstep.trans hrest⟩

/-- Trust is never rolled back: between any two moments of a run the versions of every file only
grow, a version that stays keeps its digest, and time does not go back; every file that was written
is read back as it was written, and every root that was accepted is backed by a chain. -/
theorem run_noRollback {ι : Type} [DecidableEq ι] (crypto : Crypto) (signed : Bytes → Text → Prop)
    (hforge : ∀ key payload signature, crypto.verifyDetached key payload signature = true →
      signed key payload)
    (hkeys : ∀ a b key, crypto.parsePublicKey a = some key → crypto.parsePublicKey b = some key →
      a = b)
    (resolve : Text → ι) (files : ι → Option Text) (calls later : List TrustCall) :
    let store := run crypto resolve ⟨files, []⟩ calls
    NoRollback store (store.run crypto resolve later) ∧
    (∀ place, store.files place = files place ∨ ∃ p ∈ store.returned, ∃ time,
      store.files place = some (stateText (p.2.state time)) ∧
        ∀ path, loadState path (store.files place) = .ok (p.2.state time)) ∧
    (∀ p ∈ store.returned, Backed crypto signed p.1 p.2.root ∧
      p.2.rootSha256 = sha256Hex (Text.bytes (renderRootMetadata p.2.root))) := by
  intro store
  have hempty : Sound crypto signed files (⟨files, []⟩ : TrustStore ι) :=
    ⟨fun p hp => absurd hp List.not_mem_nil, fun _ => .inl rfl⟩
  obtain ⟨hsound, -⟩ := hempty.run hforge hkeys resolve calls
  refine ⟨(hsound.run hforge hkeys resolve later).2, fun place => ?_, fun p hp => ?_⟩
  · rcases hsound.stored place with hsame | ⟨p, hp, time, htext, hreadable⟩
    · exact .inl hsame
    · refine .inr ⟨p, hp, time, htext, fun path => ?_⟩
      rw [htext]
      exact loadState_stateText hreadable path
  · exact ⟨(hsound.accepted p hp).backed, (hsound.accepted p hp).rootDigest⟩

end TrustStore

end Chain

/-! ## A registry with one key -/

/-- The only key, which signs for every role. -/
def soleKey : Bytes :=
  [121, 181, 86, 46, 143, 230, 84, 249, 64, 120, 177, 18, 232, 169, 139, 167, 144, 31, 133, 58,
    230, 149, 190, 215, 224, 227, 145, 11, 173, 4, 150, 100]

def soleKeyText : Text := "ed25519:ebVWLo/mVPlAeLES6KmLp5AfhTrmlb7X4OORC60ElmQ=".toList

def soleRole : TrustRole := ⟨[soleKeyText], 1⟩

def soleCommon (signature : String) : CommonMetadata where
  registryName := "registry".toList
  version := 1
  expires := "2031-01-01T00:00:00Z".toList
  signatures := [⟨publicKeyId soleKey, signature.toList⟩]

def soleRoot : RootMetadata :=
  { soleCommon ("ed25519:OzdwdIRN5H5lKwNKwUmugTNDiYTCFrBYVS/OyeLulkfl" ++
      "Tu8Gljhj7y81zeIC4k96kD5lozfiuIpga4VwTv4RDA==") with
    root := soleRole, targets := soleRole, snapshot := soleRole, timestamp := soleRole }

def soleSnapshot : SnapshotMetadata :=
  { soleCommon ("ed25519:gXU+e70SEQXwFWfggOAJamee+1sktc7pY/08e+r59s4w" ++
      "dwEzZBFmAJp/mo+6be+ex3AZdlbPSF1zXdfbR1xWCg==") with
    rootVersion := 1
    packagesSha256 := sha256Hex (Text.bytes "chtholly-registry-packages-tree-v1\n".toList) }

def soleTimestamp : TimestampMetadata :=
  { soleCommon ("ed25519:Vty/GQm/315xyQ7mrSGn0aoWZJNNExa+ovSwByN0HVcv" ++
      "F2GaEoquM/0bznfPvwKR+uA9/aoi+P/cmXW+JYkvDA==") with
    rootVersion := 1
    snapshotVersion := 1
    snapshotSha256 := sha256Hex (Text.bytes (renderSnapshotMetadata soleSnapshot)) }

/-- The library, as far as it is asked here: the text decodes to the key, and the three signatures
are valid. -/
def soleCrypto : Crypto where
  parsePublicKey text := if text = soleKeyText then some soleKey else none
  verifyDetached key payload signature :=
    key == soleKey &&
      [(rootPayload soleRoot, soleRoot.signatures),
        (snapshotSignatureInput soleSnapshot, soleSnapshot.signatures),
        (timestampSignatureInput soleTimestamp, soleTimestamp.signatures)].any fun p =>
        payload == p.1 && p.2.any fun s => signature == s.signature

def soleCheckout : Checkout where
  rootFiles := [.ok (renderRootMetadata soleRoot)]
  snapshot := .ok (renderSnapshotMetadata soleSnapshot)
  timestamp := .ok (renderTimestampMetadata soleTimestamp)
  auditCheckpoint := .error "failed to open input file"
  packages := .ok []

def soleRequest : TrustRequest where
  registryName := "registry".toList
  registryIndex := "https://registry".toList
  checkoutRoot := "checkout".toList
  identityStoreRoot := "identity".toList
  bootstrapRootKeys := [soleKeyText]
  bootstrapRootThreshold := 1
  persistState := false

def soleAccess : Access := { clock := 1709251210 }

/-- A call that accepts the checkout, and the commit of what it returned. -/
def soleCalls : List TrustCall :=
  [.verify soleRequest soleAccess soleAccess.clock soleCheckout, .commit soleRequest soleAccess 0]

lemma readable_soleCommon {signature : String}
    (h : "ed25519:".toList.isPrefixOf signature.toList = true) :
    (soleCommon signature).Readable where
  registryName := show "registry".toList ≠ [] by decide
  version := show (1 : UInt64) ≠ 0 by decide
  expires := show (parseRfc3339 "2031-01-01T00:00:00Z".toList).isSome = true by decide
  signatures := by
    rintro s hs
    obtain rfl := List.mem_singleton.mp hs
    exact ⟨⟨_, isHexDigest_sha256Hex _, rfl⟩, h⟩
  sorted := rfl

lemma readable_soleRole : soleRole.Readable soleCrypto :=
  ⟨by decide, by decide⟩

lemma readable_soleRoot : soleRoot.Readable soleCrypto where
  common := readable_soleCommon (by decide)
  format := .inl rfl
  rootRole := readable_soleRole
  targets := readable_soleRole
  snapshot := readable_soleRole
  timestamp := readable_soleRole
  audit := fun _ => absurd ‹_› (by decide)
  revoked := rfl

/-- The checkout is accepted. -/
lemma verifyRegistryTrust_sole : (verifyRegistryTrust soleCrypto soleRequest soleAccess
    soleAccess.clock soleCheckout none).1.toBool = true := by
  decide +kernel

theorem sole_noRollback :
    (verifyRegistryTrust soleCrypto soleRequest soleAccess soleAccess.clock soleCheckout
      none).1.toBool = true ∧
    TrustStore.NoRollback ⟨fun _ => none, []⟩
      (TrustStore.run soleCrypto id ⟨fun _ => none, []⟩ soleCalls) := by
  have hkeys : ∀ a b key, soleCrypto.parsePublicKey a = some key →
      soleCrypto.parsePublicKey b = some key → a = b := by
    have hsole : ∀ a key, soleCrypto.parsePublicKey a = some key → a = soleKeyText := by
      intro a key ha
      by_contra hne
      rw [soleCrypto] at ha
      dsimp only at ha
      rw [if_neg hne] at ha
      simp at ha
    intro a b key ha hb
    exact (hsole a key ha).trans (hsole b key hb).symm
  refine ⟨verifyRegistryTrust_sole, ?_⟩
  exact (TrustStore.run_noRollback soleCrypto
    (fun key payload => ∃ signature, soleCrypto.verifyDetached key payload signature = true)
    (fun _ _ signature h => ⟨signature, h⟩) hkeys id (fun _ => none) [] soleCalls).1

end Registry

end Chtholly
