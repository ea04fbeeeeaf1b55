import Mathlib.Logic.Function.Basic
import Mathlib.Data.List.Nodup
import Mathlib.Data.Fintype.Pi
import Chtholly.Interleaving.Runs

/-!
# Resource leases and their tokens

The lease of `next_resource_lease_v2.c`: a count of active tokens, a list of token records and a
state.  A token is a struct in the memory of its holder; it is active while the lease has a
record of it.  Each function below is the body of one critical section of the lease's mutex.

Record pointers are modelled by the generation the record was made with, which no other record
of the lease has.  The counters are natural numbers: `acquire_locked` refuses before `active` or
`next_generation` would overflow.

## Main definitions

* `Lease.Memory` — the lease, the tokens in the memory of their holders, and which holders have
  acquired and released.
* `Lease.Memory.acquire`, `Lease.Memory.release` — the two operations on tokens.
* `Lease.Memory.Valid` — the invariant of the lease.

## Main results

* `Lease.Memory.Valid.acquire_cases` — a failed acquire leaves the lease as it was, whichever
  branch it leaves through.
* `Lease.Memory.Valid.release_eq` — the release of an active token succeeds.
-/

set_option autoImplicit false

namespace Chtholly

namespace Lease

/-- A 32-byte digest. -/
abbrev Digest : Type := Fin 32 → UInt8

def validDigest (digest : Digest) : Bool := decide (∃ i, digest i ≠ 0)

/-- The result codes of the file; `callback` stands for a code that a callback of the host
returned. -/
inductive Status where
  | ok
  | invalidArgument
  | outOfMemory
  | invalidHandle
  | notReady
  | alreadyClosed
  | closed
  | stale
  | busy
  | invalidState
  | callback
  deriving DecidableEq, Repr

/-- The policies 1 and 2. -/
inductive Policy where
  | exclusive
  | shared
  deriving DecidableEq, Repr

inductive LeaseState where
  | available
  | leased
  | closing
  | closed
  deriving DecidableEq, Repr

/-- `chtholly_next_resource_token_v2`; a zeroed token is `none`. -/
structure ResourceToken where
  generation : ℕ
  descriptorDigest : Digest
  deriving DecidableEq

/-- `NextResourceTokenRecord`, with the address of the token it was made for. -/
structure TokenRecord (α : Type) where
  token : α
  generation : ℕ
  deriving DecidableEq

structure ResourceLease (α : Type) where
  policy : Policy
  state : LeaseState
  active : ℕ
  transports : ℕ
  nextGeneration : ℕ
  descriptorDigest : Digest
  records : List (TokenRecord α)

/-- The lease, the tokens at their addresses, and the addresses at which tokens were acquired
and released so far. -/
structure Memory (α : Type) where
  lease : ResourceLease α
  tokens : α → Option ResourceToken
  acquired : List α
  released : List α

/-- `create`, for a policy and a digest that it accepts. -/
def ResourceLease.create (α : Type) (policy : Policy) (descriptorDigest : Digest) :
    ResourceLease α :=
  { policy, state := .available, active := 0, transports := 0, nextGeneration := 1,
    descriptorDigest, records := [] }

def Memory.create (α : Type) (policy : Policy) (descriptorDigest : Digest) : Memory α :=
  { lease := ResourceLease.create α policy descriptorDigest, tokens := fun _ => none,
    acquired := [], released := [] }

/-- No token is handed out any more. -/
def ResourceLease.isClosing {α : Type} (lease : ResourceLease α) : Bool :=
  lease.state = .closing || lease.state = .closed

namespace Memory

variable {α : Type} [DecidableEq α] {m m' : Memory α} {digest : Digest} {a b : α}

def writeToken (m : Memory α) (a : α) (token : Option ResourceToken) : Memory α :=
  { m with tokens := Function.update m.tokens a token }

/-- The end of an `acquire_locked` that succeeds: a token with a new generation at `out`, and
its record at the head of the list. -/
def issue (m : Memory α) (digest : Digest) (out : α) : Memory α :=
  { m with
    lease := { m.lease with
      active := m.lease.active + 1
      state := .leased
      nextGeneration := m.lease.nextGeneration + 1
      records := ⟨out, m.lease.nextGeneration⟩ :: m.lease.records }
    tokens := Function.update m.tokens out (some ⟨m.lease.nextGeneration, digest⟩)
    acquired := m.acquired ++ [out] }

/-- The end of an `acquire_locked` that cannot allocate its record: the count has already gone up
and the state is LEASED, and both are taken back. -/
def retract (m : Memory α) : Memory α :=
  { m with lease := { m.lease with
      active := m.lease.active + 1 - 1
      state := if m.lease.active + 1 - 1 = 0 then .available else .leased } }

/-- `acquire_locked`; `memory` tells whether the record can be allocated. -/
def acquire (m : Memory α) (digest : Digest) (out : α) (memory : Bool) : Status × Memory α :=
  if !validDigest digest then (.invalidArgument, m)
  else if m.lease.descriptorDigest ≠ digest then (.stale, m.writeToken out none)
  else if m.lease.state = .closed then (.closed, m.writeToken out none)
  else if m.lease.state = .closing then (.busy, m.writeToken out none)
  else if m.lease.policy = .exclusive ∧ m.lease.state ≠ .available then
    (.busy, m.writeToken out none)
  else if m.lease.active = 2 ^ 32 - 1 ∨ m.lease.nextGeneration = 2 ^ 64 - 1 then
    (.busy, m.writeToken out none)
  else if !memory then (.outOfMemory, (m.writeToken out none).retract)
  else (.ok, m.issue digest out)

/-- The end of a `release_locked` that succeeds: the record is unlinked and the token zeroed. -/
def withdraw (m : Memory α) (a : α) (record : TokenRecord α) : Memory α :=
  { m with
    lease := { m.lease with
      active := m.lease.active - 1
      state := if m.lease.state = .leased ∧ m.lease.active - 1 = 0 then .available
        else m.lease.state
      records := m.lease.records.erase record }
    tokens := Function.update m.tokens a none
    released := m.released ++ [a] }

/-- `release_locked` of the token at `a`. -/
def release (m : Memory α) (a : α) : Status × Memory α :=
  match m.tokens a with
  | none => (.invalidArgument, m)
  | some token =>
    match m.lease.records.find? (fun record => record.generation = token.generation) with
    | none => (.stale, m)
    | some record =>
      if record.token ≠ a ∨ token.generation = 0 ∨ m.lease.nextGeneration ≤ token.generation ∨
          token.descriptorDigest ≠ m.lease.descriptorDigest then (.stale, m)
      else if m.lease.active = 0 then (.invalidArgument, m)
      else (.ok, m.withdraw a record)

/-- `begin_close_locked`. -/
def beginClose (m : Memory α) : Status × Memory α :=
  if m.lease.state = .closed ∨ m.lease.state = .closing then (.alreadyClosed, m)
  else (.ok, { m with lease := { m.lease with state := .closing } })

/-- `quiesce_locked`. -/
def quiesce (m : Memory α) : Status × Memory α :=
  if m.lease.state = .closed then (.ok, m)
  else if m.lease.state ≠ .closing then (.notReady, m)
  else if m.lease.active ≠ 0 then (.notReady, m)
  else (.ok, { m with lease := { m.lease with state := .closed } })

/-- The count of transports is written under the lease's mutex too; it is 32 bits wide and has
no guard. -/
def setTransports (m : Memory α) (n : ℕ) : Memory α :=
  { m with lease := { m.lease with transports := n % 2 ^ 32 } }

section Fields

variable (m : Memory α) (digest : Digest) (a b : α) (record : TokenRecord α)

lemma issue_tokens : (m.issue digest a).tokens b =
    if b = a then some ⟨m.lease.nextGeneration, digest⟩ else m.tokens b :=
  Function.update_apply ..

@[simp] lemma withdraw_active : (m.withdraw a record).lease.active = m.lease.active - 1 := rfl

@[simp] lemma withdraw_state : (m.withdraw a record).lease.state =
    if m.lease.state = .leased ∧ m.lease.active - 1 = 0 then .available else m.lease.state := rfl

lemma withdraw_tokens : (m.withdraw a record).tokens b = if b = a then none else m.tokens b :=
  Function.update_apply ..

end Fields

/-! ## The invariant -/

/-- The records are the active tokens, each once; every holder that acquired a token has it or
has released it. -/
structure Valid (m : Memory α) : Prop where
  active_eq : m.lease.active = m.lease.records.length
  exclusive : m.lease.policy = .exclusive → m.lease.active ≤ 1
  available : m.lease.state = .available → m.lease.active = 0
  leased : m.lease.state = .leased → 0 < m.lease.active
  closed : m.lease.state = .closed → m.lease.active = 0
  nodup : (m.lease.records.map TokenRecord.generation).Nodup
  generation_pos : 0 < m.lease.nextGeneration
  tokens_of_records : ∀ record ∈ m.lease.records, ∃ token, m.tokens record.token = some token ∧
    token.generation = record.generation
  records_of_tokens : ∀ a token, m.tokens a = some token →
    ⟨a, token.generation⟩ ∈ m.lease.records ∧
      token.descriptorDigest = m.lease.descriptorDigest ∧
      0 < token.generation ∧ token.generation < m.lease.nextGeneration
  counts : ∀ a, m.released.count a + (if (m.tokens a).isSome then 1 else 0) = m.acquired.count a

lemma Valid.create (policy : Policy) : (Memory.create α policy digest).Valid where
  active_eq := rfl
  exclusive := fun _ => Nat.zero_le 1
  available := fun _ => rfl
  leased := fun h => nomatch h
  closed := fun _ => rfl
  nodup := List.nodup_nil
  generation_pos := Nat.one_pos
  tokens_of_records := fun _ h => nomatch h
  records_of_tokens := fun _ _ h => nomatch h
  counts := fun _ => rfl

lemma writeToken_none (h : m.tokens a = none) : m.writeToken a none = m := by
  rw [writeToken, ← h, Function.update_eq_self]

lemma Valid.generation_lt (h : m.Valid) {record : TokenRecord α}
    (hr : record ∈ m.lease.records) : record.generation < m.lease.nextGeneration := by
  obtain ⟨token, htoken, hgen⟩ := h.tokens_of_records record hr
  rw [← hgen]
  exact (h.records_of_tokens _ token htoken).2.2.2

/-- An active token is counted. -/
lemma Valid.active_pos (h : m.Valid) (ha : (m.tokens a).isSome) : 0 < m.lease.active := by
  obtain ⟨token, htoken⟩ := Option.isSome_iff_exists.1 ha
  rw [h.active_eq]
  exact List.length_pos_of_mem (h.records_of_tokens a token htoken).1

/-! ## Acquire -/

/-- Every way through `acquire_locked` that fails restores the lease. -/
lemma Valid.acquire_cases (h : m.Valid) (hfree : m.tokens a = none) (digest : Digest)
    (memory : Bool) :
    ((m.acquire digest a memory).1 ≠ .ok ∧ (m.acquire digest a memory).2 = m) ∨
      (m.acquire digest a memory = (.ok, m.issue digest a) ∧
        m.lease.descriptorDigest = digest ∧ m.lease.isClosing = false ∧
        (m.lease.policy = .exclusive → m.lease.state = .available)) := by
  rw [acquire]
  split_ifs with h₁ h₂ h₃ h₄ h₅ h₆ h₇
  · exact .inl ⟨nofun, rfl⟩
  · exact .inl ⟨nofun, writeToken_none hfree⟩
  · exact .inl ⟨nofun, writeToken_none hfree⟩
  · exact .inl ⟨nofun, writeToken_none hfree⟩
  · exact .inl ⟨nofun, writeToken_none hfree⟩
  · exact .inl ⟨nofun, writeToken_none hfree⟩
  · refine .inl ⟨nofun, ?_⟩
    -- AVAILABLE goes with a count of zero and LEASED with a positive one.
    have hstate : (if m.lease.active + 1 - 1 = 0 then LeaseState.available else .leased) =
        m.lease.state := by
      rw [Nat.add_sub_cancel]
      cases hs : m.lease.state with
      | available => rw [if_pos (h.available hs)]
      | leased => rw [if_neg (Nat.pos_iff_ne_zero.1 (h.leased hs))]
      | closing => exact absurd hs h₄
      | closed => exact absurd hs h₃
    show (m.writeToken a none).retract = m
    rw [writeToken_none hfree, retract, hstate, Nat.add_sub_cancel]
  · refine .inr ⟨rfl, not_not.1 h₂, ?_, fun hp => ?_⟩
    · rw [ResourceLease.isClosing, decide_eq_false h₃, decide_eq_false h₄]
      rfl
    · by_contra hs
      exact h₅ ⟨hp, hs⟩

lemma Valid.acquire_failed (h : m.Valid) (hfree : m.tokens a = none) {memory : Bool}
    {status : Status} (hresult : m.acquire digest a memory = (status, m')) (hstatus : status ≠ .ok) :
    m' = m := by
  rcases h.acquire_cases hfree digest memory with ⟨-, hm⟩ | ⟨hok, -⟩
  · rw [hresult] at hm
    exact hm
  · rw [hresult, Prod.mk.injEq] at hok
    exact absurd hok.1 hstatus

lemma Valid.acquire_ok (h : m.Valid) (hfree : m.tokens a = none) {memory : Bool}
    (hresult : m.acquire digest a memory = (.ok, m')) :
    m' = m.issue digest a ∧ m.lease.descriptorDigest = digest ∧ m.lease.isClosing = false ∧
      (m.lease.policy = .exclusive → m.lease.state = .available) := by
  rcases h.acquire_cases hfree digest memory with ⟨hne, -⟩ | ⟨hok, hrest⟩
  · rw [hresult] at hne
    exact absurd rfl hne
  · rw [hresult, Prod.mk.injEq] at hok
    exact ⟨hok.2, hrest⟩

lemma Valid.issue (h : m.Valid) (hfree : m.tokens a = none)
    (hpolicy : m.lease.policy = .exclusive → m.lease.state = .available)
    (hdigest : m.lease.descriptorDigest = digest) :
    (m.issue digest a).Valid where
  active_eq := by
    show m.lease.active + 1 = m.lease.records.length + 1
    rw [h.active_eq]
  exclusive := fun hp => by
    have hzero := h.available (hpolicy hp)
    show m.lease.active + 1 ≤ 1
    omega
  available := nofun
  leased := fun _ => Nat.succ_pos _
  closed := nofun
  nodup := by
    show (_ :: m.lease.records.map TokenRecord.generation).Nodup
    refine List.nodup_cons.2 ⟨fun hmem => ?_, h.nodup⟩
    obtain ⟨record, hr, hgen⟩ := List.mem_map.1 hmem
    exact absurd hgen (h.generation_lt hr).ne
  generation_pos := Nat.succ_pos _
  tokens_of_records := by
    intro record hr
    show ∃ token, Function.update m.tokens a _ record.token = some token ∧ _
    rcases List.mem_cons.1 hr with rfl | hr
    · exact ⟨_, Function.update_self .., rfl⟩
    · obtain ⟨token, htoken, hgen⟩ := h.tokens_of_records record hr
      refine ⟨token, ?_, hgen⟩
      rw [Function.update_of_ne, htoken]
      intro heq
      rw [heq, hfree] at htoken
      exact nomatch htoken
  records_of_tokens := by
    intro b token hb
    rw [issue_tokens] at hb
    by_cases hba : b = a
    · subst hba
      rw [if_pos rfl, Option.some.injEq] at hb
      subst hb
      exact ⟨List.mem_cons_self, hdigest.symm, h.generation_pos, Nat.lt_succ_self _⟩
    · rw [if_neg hba] at hb
      obtain ⟨hr, hd, hpos, hlt⟩ := h.records_of_tokens b token hb
      exact ⟨List.mem_cons_of_mem _ hr, hd, hpos, Nat.lt_succ_of_lt hlt⟩
  counts := by
    intro b
    show m.released.count b + (if (Function.update m.tokens a _ b).isSome then 1 else 0) =
      (m.acquired ++ [a]).count b
    rw [List.count_append, ← h.counts b]
    by_cases hba : b = a
    · subst hba
      rw [Function.update_self, hfree, List.count_singleton_self]
      rfl
    · rw [Function.update_of_ne hba, List.count_eq_zero_of_not_mem (l := [a]) (by simpa using hba)]
      rfl

/-! ## Release -/

lemma release_none (h : m.tokens a = none) : m.release a = (.invalidArgument, m) := by
  rw [release, h]

/-- The release of an active token always goes through. -/
lemma Valid.release_eq (h : m.Valid) {token : ResourceToken} (ha : m.tokens a = some token) :
    m.release a = (.ok, m.withdraw a ⟨a, token.generation⟩) := by
  obtain ⟨hmem, hdigest, hpos, hlt⟩ := h.records_of_tokens a token ha
  have hactive : m.lease.active ≠ 0 := by
    rw [h.active_eq]
    exact (List.length_pos_of_mem hmem).ne'
  rw [release, ha]
  cases hfind : m.lease.records.find? (fun record => record.generation = token.generation) with
  | none =>
    have hnone := List.find?_eq_none.1 hfind _ hmem
    simp at hnone
  | some record =>
    have hgen : record.generation = token.generation := by
      simpa using List.find?_some hfind
    -- Generations are unique, so the record found is the one of this token.
    have hrecord : record = ⟨a, token.generation⟩ :=
      List.inj_on_of_nodup_map h.nodup (List.mem_of_find?_eq_some hfind) hmem hgen
    subst hrecord
    have hchecks : ¬(a ≠ a ∨ token.generation = 0 ∨ m.lease.nextGeneration ≤ token.generation ∨
        token.descriptorDigest ≠ m.lease.descriptorDigest) := by
      rintro (h | h | h | h)
      · exact h rfl
      · omega
      · omega
      · exact h hdigest
    simp only [hfind, if_neg hchecks, if_neg hactive]

lemma Valid.withdraw (h : m.Valid) {token : ResourceToken} (ha : m.tokens a = some token) :
    (m.withdraw a ⟨a, token.generation⟩).Valid := by
  obtain ⟨hmem, -, -, -⟩ := h.records_of_tokens a token ha
  have hpos := h.active_pos (a := a) (by rw [ha]; rfl)
  have hrecords := h.nodup.of_map
  have hlength := List.length_erase_of_mem hmem
  have hactive := h.active_eq
  constructor
  · show m.lease.active - 1 = (m.lease.records.erase _).length
    omega
  · intro hp
    have := h.exclusive hp
    show m.lease.active - 1 ≤ 1
    omega
  · intro hs
    rw [withdraw_state] at hs
    show m.lease.active - 1 = 0
    by_cases hif : m.lease.state = .leased ∧ m.lease.active - 1 = 0
    · exact hif.2
    · rw [if_neg hif] at hs
      have := h.available hs
      omega
  · intro hs
    rw [withdraw_state] at hs
    show 0 < m.lease.active - 1
    by_cases hif : m.lease.state = .leased ∧ m.lease.active - 1 = 0
    · rw [if_pos hif] at hs
      exact nomatch hs
    · rw [if_neg hif] at hs
      exact Nat.pos_of_ne_zero fun hzero => hif ⟨hs, hzero⟩
  · intro hs
    rw [withdraw_state] at hs
    show m.lease.active - 1 = 0
    by_cases hif : m.lease.state = .leased ∧ m.lease.active - 1 = 0
    · exact hif.2
    · rw [if_neg hif] at hs
      have := h.closed hs
      omega
  · exact h.nodup.sublist (List.erase_sublist.map _)
  · exact h.generation_pos
  · intro record hr
    obtain ⟨hne, hr⟩ := (hrecords.mem_erase_iff).1 hr
    obtain ⟨token', htoken', hgen⟩ := h.tokens_of_records record hr
    refine ⟨token', ?_, hgen⟩
    show Function.update m.tokens a none record.token = some token'
    rw [Function.update_of_ne, htoken']
    intro heq
    rw [heq, ha, Option.some.injEq] at htoken'
    apply hne
    obtain ⟨b, generation⟩ := record
    rw [TokenRecord.mk.injEq]
    exact ⟨heq, by rw [htoken']; exact hgen.symm⟩
  · intro b token' hb
    rw [withdraw_tokens] at hb
    by_cases hba : b = a
    · rw [if_pos hba] at hb
      exact nomatch hb
    · rw [if_neg hba] at hb
      obtain ⟨hr, hrest⟩ := h.records_of_tokens b token' hb
      refine ⟨(hrecords.mem_erase_iff).2 ⟨?_, hr⟩, hrest⟩
      intro heq
      exact hba (TokenRecord.mk.inj heq).1
  · intro b
    show (m.released ++ [a]).count b + (if (Function.update m.tokens a none b).isSome then 1 else 0)
      = m.acquired.count b
    rw [List.count_append, ← h.counts b]
    by_cases hba : b = a
    · subst hba
      rw [Function.update_self, ha, List.count_singleton_self]
      rfl
    · rw [Function.update_of_ne hba, List.count_eq_zero_of_not_mem (l := [a]) (by simpa using hba)]
      rfl

/-! ## What holds from call to call -/

/-- A lease that is closing stays so, and hands out no more tokens. -/
structure Advances (m m' : Memory α) : Prop where
  closing : m.lease.isClosing = true → m'.lease.isClosing = true
  idle : m.lease.isClosing = true → m.lease.active = 0 → m'.lease.active = 0
  policy : m'.lease.policy = m.lease.policy

omit [DecidableEq α] in
lemma Advances.refl (m : Memory α) : m.Advances m := ⟨id, fun _ => id, rfl⟩

lemma advances_issue (hopen : m.lease.isClosing = false) (digest : Digest) (a : α) :
    m.Advances (m.issue digest a) := by
  refine ⟨fun h => ?_, fun h => ?_, rfl⟩
  all_goals
    rw [hopen] at h
    exact nomatch h

omit [DecidableEq α] in
lemma isClosing_iff {lease : ResourceLease α} :
    lease.isClosing = true ↔ lease.state = .closing ∨ lease.state = .closed := by
  rw [ResourceLease.isClosing, Bool.or_eq_true, decide_eq_true_iff, decide_eq_true_iff]

lemma advances_withdraw (record : TokenRecord α) : m.Advances (m.withdraw a record) := by
  refine ⟨fun h => ?_, fun _ hzero => ?_, rfl⟩
  · have hstate : (m.withdraw a record).lease.state = m.lease.state := by
      rw [withdraw_state, if_neg]
      rintro ⟨hs, -⟩
      rw [isClosing_iff, hs] at h
      simp at h
    rw [isClosing_iff, hstate]
    exact isClosing_iff.1 h
  · rw [withdraw_active]
    omega

omit [DecidableEq α] in
lemma beginClose_tokens (m : Memory α) : m.beginClose.2.tokens = m.tokens ∧
    m.beginClose.2.acquired = m.acquired ∧ m.beginClose.2.released = m.released := by
  rw [beginClose]
  split_ifs <;> exact ⟨rfl, rfl, rfl⟩

lemma Valid.beginClose (h : m.Valid) : m.beginClose.2.Valid := by
  rw [Memory.beginClose]
  split_ifs with hs
  · exact h
  · exact { h with available := nofun, leased := nofun, closed := nofun }

omit [DecidableEq α] in
lemma isClosing_beginClose (m : Memory α) : m.beginClose.2.lease.isClosing = true := by
  rw [beginClose]
  split_ifs with hs
  · exact isClosing_iff.2 hs.symm
  · rfl

omit [DecidableEq α] in
lemma advances_beginClose (m : Memory α) : m.Advances m.beginClose.2 := by
  refine ⟨fun _ => isClosing_beginClose m, fun _ hzero => ?_, ?_⟩
  all_goals
    rw [beginClose]
    split_ifs
    · first | exact hzero | rfl
    · first | exact hzero | rfl

omit [DecidableEq α] in
lemma quiesce_tokens (m : Memory α) : m.quiesce.2.tokens = m.tokens ∧
    m.quiesce.2.acquired = m.acquired ∧ m.quiesce.2.released = m.released := by
  rw [quiesce]
  split_ifs <;> exact ⟨rfl, rfl, rfl⟩

lemma Valid.quiesce (h : m.Valid) : m.quiesce.2.Valid := by
  rw [Memory.quiesce]
  split_ifs with h₁ h₂ h₃
  · exact h
  · exact h
  · exact h
  · exact { h with available := nofun, leased := nofun, closed := fun _ => not_not.1 h₃ }

omit [DecidableEq α] in
lemma advances_quiesce (m : Memory α) : m.Advances m.quiesce.2 := by
  rw [quiesce]
  split_ifs
  · exact Advances.refl m
  · exact Advances.refl m
  · exact Advances.refl m
  · exact ⟨fun _ => rfl, fun _ => id, rfl⟩

omit [DecidableEq α] in
lemma advances_setTransports (m : Memory α) (n : ℕ) : m.Advances (m.setTransports n) :=
  ⟨id, fun _ => id, rfl⟩

/-- An exclusive lease has at most one holder. -/
lemma Valid.holder_unique (h : m.Valid) (hpolicy : m.lease.policy = .exclusive)
    (ha : (m.tokens a).isSome) (hb : (m.tokens b).isSome) : a = b := by
  obtain ⟨token, htoken⟩ := Option.isSome_iff_exists.1 ha
  obtain ⟨token', htoken'⟩ := Option.isSome_iff_exists.1 hb
  have hle : m.lease.records.length ≤ 1 := by
    rw [← h.active_eq]
    exact h.exclusive hpolicy
  have ha := (h.records_of_tokens a token htoken).1
  have hb := (h.records_of_tokens b token' htoken').1
  match hrecords : m.lease.records with
  | [] =>
    rw [hrecords] at ha
    exact nomatch ha
  | [record] =>
    rw [hrecords, List.mem_singleton] at ha hb
    exact (TokenRecord.mk.inj (ha.trans hb.symm)).1
  | _ :: _ :: _ =>
    rw [hrecords, List.length_cons, List.length_cons] at hle
    omega

end Memory

end Lease

end Chtholly
