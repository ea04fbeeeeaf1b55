import Chtholly.Lease.Invariant

/-!
# Leases and transports conserve tokens and payloads

What the lease, its operations and its transports promise, in every state of every run.  Tokens
are counted, and released once each; a payload that was committed to a transport is received
once, dropped once, or still on its way.

A payload can be dropped while a token is active: `receive_cancel` drops the payload that its
own token holds, and releases that token afterwards.  And several tokens of a shared lease can
each hold a payload, so the payloads need not be received in the order in which they were taken.

## Main definitions

* `Lease.World.Conserves` — what holds in each state.
* `Lease.DropsSafely` — what holds of each action that drops a payload.

## Main results

* `Lease.reachable_conserves` — both hold in every run.
* `Lease.cancel_drops_while_leased` — the two exceptions do occur.
-/

set_option autoImplicit false

namespace Chtholly

namespace Lease

open Interleaving

variable {P : Type} {w w' : World P} {action : Action P}

/-! ## What is promised -/

/-- What the lease and its transports promise in each state. -/
structure World.Conserves (w : World P) : Prop where
  /-- The lease counts its records. -/
  active_eq : w.memory.lease.active = w.memory.lease.records.length
  /-- The records are the active tokens, one for each. -/
  nodup : (w.memory.lease.records.map TokenRecord.token).Nodup
  outstanding : ∀ a, a ∈ w.memory.lease.records.map TokenRecord.token ↔
    (w.memory.tokens a).isSome
  exclusive : w.memory.lease.policy = .exclusive → w.memory.lease.records.length ≤ 1
  /-- A token that was acquired is active and was not released, or was released once. -/
  raw_once : ∀ i < w.raws, w.memory.released.count (.raw i) =
    if (w.memory.tokens (.raw i)).isSome then 0 else 1
  /-- An operation releases its token once, when it is terminal and its provider has left. -/
  operation_once : ∀ (i : ℕ) (op : ResourceOperation), w.operations[i]? = some op →
    w.memory.released.count (.operation i) = if op.busy then 0 else 1
  payload_once : ∀ (k i : ℕ) (phase : Phase P), w.payloadTokens[k]? = some ⟨i, phase⟩ →
    (w.memory.released.count (.payload k) = 0 ∧ phase ≠ .freed) ∨
      (w.memory.released.count (.payload k) = 1 ∧ phase = .freed)
  bounded : ∀ t ∈ w.transports, t.size + t.reservations ≤ t.capacity
  /-- Payloads are taken in the order in which they were committed. -/
  ordered : ∀ t ∈ w.transports, t.taken <+: t.committed
  ordered_exclusive : w.memory.lease.policy = .exclusive →
    ∀ t ∈ w.transports, t.received.Sublist t.committed
  /-- A committed payload is received, dropped, held by a token, about to be dropped by a `close`,
  or in the queue. -/
  accounted : ∀ (i : ℕ) (t : PayloadTransport P), w.transports[i]? = some t →
    (t.committed : Multiset P) =
      t.received + t.dropped + held w.payloadTokens i + t.detached + t.queue
  /-- In the end, it is received or dropped. -/
  settled : ∀ t ∈ w.transports, t.freed = true →
    (t.committed : Multiset P) = t.received + t.dropped

/-- What is promised of an action that drops payloads: a `close` drops them while no token is
active, and a `receive_cancel` the one that its own token holds. -/
structure DropsSafely (w : World P) (action : Action P) (w' : World P) : Prop where
  close : ∀ (i : ℕ) (t t' : PayloadTransport P), w.transports[i]? = some t →
    w'.transports[i]? = some t' → t'.discarded ≠ t.discarded → w.memory.lease.records = []
  cancel : ∀ (i : ℕ) (t t' : PayloadTransport P), w.transports[i]? = some t →
    w'.transports[i]? = some t' → t'.cancelled ≠ t.cancelled →
      ∃ k node, action = .receiveCancelDrop k ∧
        w.payloadTokens[k]? = some ⟨i, .acquired node⟩ ∧ t'.cancelled = t.cancelled ++ [node]

/-- No payload is dropped while a token is active. -/
def DropsIdle (w w' : World P) : Prop :=
  ∀ (i : ℕ) (t t' : PayloadTransport P), w.transports[i]? = some t →
    w'.transports[i]? = some t' → t'.dropped ≠ t.dropped → w.memory.lease.records = []

/-! ## In each state -/

lemma Memory.Valid.records_nodup {m : Memory Holder} (h : m.Valid) :
    (m.lease.records.map TokenRecord.token).Nodup := by
  refine List.Nodup.map_on ?_ h.nodup.of_map
  intro x hx y hy hxy
  obtain ⟨token, htoken, hgen⟩ := h.tokens_of_records x hx
  obtain ⟨token', htoken', hgen'⟩ := h.tokens_of_records y hy
  rw [hxy, htoken', Option.some.injEq] at htoken
  refine List.inj_on_of_nodup_map h.nodup hx hy ?_
  rw [← hgen, ← hgen', htoken]

lemma Memory.Valid.mem_records_iff {m : Memory Holder} (h : m.Valid) (a : Holder) :
    a ∈ m.lease.records.map TokenRecord.token ↔ (m.tokens a).isSome := by
  constructor
  · intro ha
    obtain ⟨record, hrecord, rfl⟩ := List.mem_map.1 ha
    obtain ⟨token, htoken, -⟩ := h.tokens_of_records record hrecord
    rw [htoken]
    rfl
  · intro ha
    obtain ⟨token, htoken⟩ := Option.isSome_iff_exists.1 ha
    exact List.mem_map.2 ⟨_, (h.records_of_tokens a token htoken).1, rfl⟩

namespace World

/-- An address at which a token was acquired once: the token is active or was released once. -/
lemma Valid.released_count (h : w.Valid) {a : Holder} (ha : w.memory.acquired.count a = 1) :
    w.memory.released.count a = if (w.memory.tokens a).isSome then 0 else 1 := by
  have hcount := h.memory.counts a
  rw [ha] at hcount
  split_ifs at hcount ⊢ <;> omega

lemma Valid.operation_once (h : w.Valid) {i : ℕ} {op : ResourceOperation}
    (hop : w.operations[i]? = some op) :
    w.memory.released.count (.operation i) = if op.busy then 0 else 1 := by
  have hlt := (List.getElem?_eq_some_iff.1 hop).1
  rw [h.released_count (by rw [h.operation, if_pos hlt])]
  simp only [h.operations i op hop]

lemma Valid.payload_once (h : w.Valid) {k i : ℕ} {phase : Phase P}
    (hk : w.payloadTokens[k]? = some ⟨i, phase⟩) :
    (w.memory.released.count (.payload k) = 0 ∧ phase ≠ .freed) ∨
      (w.memory.released.count (.payload k) = 1 ∧ phase = .freed) := by
  have hlt := (List.getElem?_eq_some_iff.1 hk).1
  have hcount := h.released_count (a := .payload k) (by rw [h.payload, if_pos hlt])
  have hiff := h.payloadTokens k _ hk
  by_cases hsome : (w.memory.tokens (.payload k)).isSome
  · rw [if_pos hsome] at hcount
    exact .inl ⟨hcount, hiff.1 hsome⟩
  · rw [if_neg hsome] at hcount
    exact .inr ⟨hcount, not_not.1 fun hne => hsome (hiff.2 hne)⟩

lemma Valid.accounted (h : w.Valid) {i : ℕ} {t : PayloadTransport P}
    (hi : w.transports[i]? = some t) :
    (t.committed : Multiset P) =
      t.received + t.dropped + held w.payloadTokens i + t.detached + t.queue := by
  have ht := h.transports i t hi
  rw [ht.committed_eq, PayloadTransport.dropped, ← Multiset.coe_add, ← Multiset.coe_add,
    ← Multiset.coe_add, ← Multiset.coe_add, ht.taken_eq]
  ac_rfl

/-- Without an active token, no payload is held. -/
lemma Valid.held_eq_zero (h : w.Valid) (hzero : w.memory.lease.active = 0) (i : ℕ) :
    held w.payloadTokens i = 0 := by
  rw [held, List.sum_eq_zero]
  intro payloads hpayloads
  obtain ⟨⟨j, phase⟩, htoken, rfl⟩ := List.mem_map.1 hpayloads
  obtain ⟨k, hk⟩ := List.getElem?_of_mem htoken
  have hfreed : phase = .freed := by
    by_contra hne
    have := h.active_pos hk hne
    omega
  rw [PayloadToken.holds, hfreed, Phase.held, ite_self]

lemma Valid.settled (h : w.Valid) {i : ℕ} {t : PayloadTransport P}
    (hi : w.transports[i]? = some t) (hfreed : t.freed = true) :
    (t.committed : Multiset P) = t.received + t.dropped := by
  have ht := h.transports i t hi
  have hquiesced := ht.freed hfreed
  obtain ⟨-, hzero, hqueue⟩ := ht.draining (.inr (.inl hquiesced))
  rw [h.accounted hi, h.held_eq_zero hzero, ht.detached_nil (.inr hquiesced), hqueue,
    Multiset.coe_nil, add_zero, add_zero, add_zero]

lemma Valid.conserves (h : w.Valid) : w.Conserves where
  active_eq := h.memory.active_eq
  nodup := h.memory.records_nodup
  outstanding := h.memory.mem_records_iff
  exclusive := fun hp => h.memory.active_eq ▸ h.memory.exclusive hp
  raw_once := fun i hi => h.released_count (by rw [h.raw, if_pos hi])
  operation_once := fun _ _ hop => h.operation_once hop
  payload_once := fun _ _ _ hk => h.payload_once hk
  bounded := fun t ht => by
    obtain ⟨i, hi⟩ := List.getElem?_of_mem ht
    exact (h.transports i t hi).bounded
  ordered := fun t ht => by
    obtain ⟨i, hi⟩ := List.getElem?_of_mem ht
    rw [(h.transports i t hi).committed_eq, List.append_assoc, List.append_assoc]
    exact List.prefix_append _ _
  ordered_exclusive := fun hp t ht => by
    obtain ⟨i, hi⟩ := List.getElem?_of_mem ht
    refine ((h.transports i t hi).order hp).trans ?_
    rw [(h.transports i t hi).committed_eq, List.append_assoc, List.append_assoc]
    exact List.sublist_append_left _ _
  accounted := fun _ _ hi => h.accounted hi
  settled := fun t ht hfreed => by
    obtain ⟨i, hi⟩ := List.getElem?_of_mem ht
    exact h.settled hi hfreed

end World

/-! ## In each action -/

/-- The transports dropped nothing. -/
def SameDrops (w w' : World P) : Prop :=
  ∀ (i : ℕ) (t t' : PayloadTransport P), w.transports[i]? = some t →
    w'.transports[i]? = some t' → t'.cancelled = t.cancelled ∧ t'.discarded = t.discarded

lemma SameDrops.safely (h : SameDrops w w') (action : Action P) : DropsSafely w action w' where
  close := fun i t t' hi hi' hne => absurd (h i t t' hi hi').2 hne
  cancel := fun i t t' hi hi' hne => absurd (h i t t' hi hi').1 hne

lemma sameDrops_of_eq (h : w'.transports = w.transports) : SameDrops w w' := by
  intro i t t' hi hi'
  rw [h, hi, Option.some.injEq] at hi'
  rw [hi']
  exact ⟨rfl, rfl⟩

lemma sameDrops_set {i : ℕ} {t t' : PayloadTransport P} (hi : w.transports[i]? = some t)
    (h : w'.transports = w.transports.set i t') (hcancelled : t'.cancelled = t.cancelled)
    (hdiscarded : t'.discarded = t.discarded) : SameDrops w w' := by
  intro j u u' hj hj'
  rw [h, List.getElem?_set] at hj'
  split_ifs at hj' with hij hlt
  · subst hij
    rw [hi, Option.some.injEq] at hj
    rw [Option.some.injEq] at hj'
    rw [← hj, ← hj']
    exact ⟨hcancelled, hdiscarded⟩
  · rw [hj, Option.some.injEq] at hj'
    rw [hj']
    exact ⟨rfl, rfl⟩

lemma sameDrops_append {t : PayloadTransport P} (h : w'.transports = w.transports ++ [t]) :
    SameDrops w w' := by
  intro i u u' hi hi'
  rw [h, List.getElem?_append_left (List.getElem?_eq_some_iff.1 hi).1, hi,
    Option.some.injEq] at hi'
  rw [hi']
  exact ⟨rfl, rfl⟩

section Actions

variable {i k : ℕ} {t : PayloadTransport P} {op : ResourceOperation}

lemma sameDrops_acquire (digest : Digest) (memory : Bool) :
    SameDrops w (w.acquire digest memory).2 := by
  unfold World.acquire
  split <;> exact sameDrops_of_eq rfl

lemma sameDrops_leaseDestroy : SameDrops w w.leaseDestroy.2 := by
  rw [World.leaseDestroy]
  split_ifs <;> exact sameDrops_of_eq rfl

lemma sameDrops_operationBegin (digest : Digest) (memory recordMemory : Bool) :
    SameDrops w (w.operationBegin digest memory recordMemory).2 := by
  rw [World.operationBegin]
  split_ifs
  · exact sameDrops_of_eq rfl
  · split <;> exact sameDrops_of_eq rfl

lemma sameDrops_operationComplete (terminalState : ℕ) :
    SameDrops w (w.operationComplete i op terminalState).2 := by
  rw [World.operationComplete]
  split
  · split_ifs <;> exact sameDrops_of_eq rfl
  · exact sameDrops_of_eq rfl

lemma sameDrops_providerEnter : SameDrops w (w.providerEnter i op).2 := by
  rw [World.providerEnter]
  split_ifs <;> exact sameDrops_of_eq rfl

lemma sameDrops_providerLeave : SameDrops w (w.providerLeave i op).2 := by
  rw [World.providerLeave]
  split_ifs <;> exact sameDrops_of_eq rfl

lemma sameDrops_operationDestroy : SameDrops w (w.operationDestroy i op).2 := by
  rw [World.operationDestroy]
  split_ifs <;> exact sameDrops_of_eq rfl

lemma sameDrops_transportCreate (digest : Digest) (capacity payloadSize : ℕ)
    (typed memory retained : Bool) :
    SameDrops w (w.transportCreate digest capacity payloadSize typed memory retained).2 := by
  rw [World.transportCreate]
  split_ifs
  · exact sameDrops_of_eq rfl
  · exact sameDrops_of_eq rfl
  · exact sameDrops_of_eq rfl
  · exact sameDrops_of_eq rfl
  · exact sameDrops_of_eq rfl
  · exact sameDrops_append rfl

lemma sameDrops_sendPrepare (hi : w.transports[i]? = some t) (source : P) (sourceSize : ℕ)
    (memory recordMemory : Bool) :
    SameDrops w (w.sendPrepare i t source sourceSize memory recordMemory).2 := by
  rw [World.sendPrepare]
  split_ifs
  · exact sameDrops_of_eq rfl
  · exact sameDrops_of_eq rfl
  · exact sameDrops_of_eq rfl
  · exact sameDrops_of_eq rfl
  · split
    · exact sameDrops_set hi rfl rfl rfl
    · exact sameDrops_of_eq rfl

lemma sameDrops_sendCommitSelect (source : P) (memory : Bool) :
    SameDrops w (w.sendCommitSelect k i t source memory).2 := by
  rw [World.sendCommitSelect]
  split_ifs <;> exact sameDrops_of_eq rfl

lemma sameDrops_receiveAcquire (hi : w.transports[i]? = some t) (memory recordMemory : Bool) :
    SameDrops w (w.receiveAcquire i t memory recordMemory).2 := by
  unfold World.receiveAcquire
  split
  · exact sameDrops_of_eq rfl
  · split_ifs
    · exact sameDrops_set hi rfl rfl rfl
    · split <;> exact sameDrops_set hi rfl rfl rfl

lemma sameDrops_receiveCommit (hi : w.transports[i]? = some t) (node : P)
    (destinationSize : ℕ) : SameDrops w (w.receiveCommit k i t node destinationSize).2 := by
  rw [World.receiveCommit]
  split_ifs
  · exact sameDrops_of_eq rfl
  · exact sameDrops_of_eq rfl
  · exact sameDrops_set hi rfl rfl rfl

lemma sameDrops_receiveTakeMove (hi : w.transports[i]? = some t) (node : P)
    (memory retained : Bool) : SameDrops w (w.receiveTakeMove k i t node memory retained).2 := by
  rw [World.receiveTakeMove]
  split_ifs
  · exact sameDrops_of_eq rfl
  · exact sameDrops_of_eq rfl
  · exact sameDrops_of_eq rfl
  · exact sameDrops_set hi rfl rfl rfl

lemma sameDrops_closeBegin (hi : w.transports[i]? = some t) :
    SameDrops w (w.closeBegin i t).2 := by
  rw [World.closeBegin]
  split_ifs
  · exact sameDrops_of_eq rfl
  · exact sameDrops_set hi rfl rfl rfl
  · exact sameDrops_set hi rfl rfl rfl

lemma sameDrops_closeDetach (hi : w.transports[i]? = some t) :
    SameDrops w (w.closeDetach i t).2 := by
  rw [World.closeDetach]
  split_ifs <;> exact sameDrops_set hi rfl rfl rfl

lemma sameDrops_transportDestroy (hi : w.transports[i]? = some t) :
    SameDrops w (w.transportDestroy i t).2 := by
  rw [World.transportDestroy]
  split_ifs
  · exact sameDrops_of_eq rfl
  · exact sameDrops_set hi rfl rfl rfl

/-- The payload that `receive_cancel` drops is the one of its token. -/
lemma dropsSafely_receiveCancelDrop (hi : w.transports[i]? = some t) {node : P}
    (hk : w.payloadTokens[k]? = some ⟨i, .acquired node⟩) :
    DropsSafely w (.receiveCancelDrop k) (w.receiveCancelDrop k i t node).2 := by
  have htransports : (w.receiveCancelDrop k i t node).2.transports =
      w.transports.set i { t with cancelled := t.cancelled ++ [node] } := rfl
  constructor
  · intro j u u' hj hj' hne
    rw [htransports, List.getElem?_set] at hj'
    split_ifs at hj' with hij hlt
    · subst hij
      rw [hi, Option.some.injEq] at hj
      rw [Option.some.injEq] at hj'
      rw [← hj, ← hj'] at hne
      exact absurd rfl hne
    · rw [hj, Option.some.injEq] at hj'
      exact absurd (by rw [hj']) hne
  · intro j u u' hj hj' hne
    rw [htransports, List.getElem?_set] at hj'
    split_ifs at hj' with hij hlt
    · subst hij
      rw [hi, Option.some.injEq] at hj
      rw [Option.some.injEq] at hj'
      subst hj hj'
      exact ⟨k, node, rfl, hk, rfl⟩
    · rw [hj, Option.some.injEq] at hj'
      exact absurd (by rw [hj']) hne

/-- When `close` drops a payload, no token is active. -/
lemma dropsSafely_closeDropNode (h : w.Valid) (hi : w.transports[i]? = some t) {node : P}
    {rest : List P} (hdetached : t.detached = node :: rest) (action : Action P) :
    DropsSafely w action (w.closeDropNode i t node rest).2 := by
  have ht := h.transports i t hi
  have hcallbacks : t.callbacks ≠ 0 := fun hc => by
    have hnil := ht.detached_nil (.inl hc)
    rw [hdetached] at hnil
    exact nomatch hnil
  have hrecords : w.memory.lease.records = [] := by
    rw [← List.length_eq_zero_iff, ← h.memory.active_eq]
    exact (ht.draining (.inl hcallbacks)).2.1
  have htransports : (w.closeDropNode i t node rest).2.transports =
      w.transports.set i { t with detached := rest, discarded := t.discarded ++ [node] } := rfl
  refine ⟨fun _ _ _ _ _ _ => hrecords, ?_⟩
  intro j u u' hj hj' hne
  rw [htransports, List.getElem?_set] at hj'
  split_ifs at hj' with hij hlt
  · subst hij
    rw [hi, Option.some.injEq] at hj
    rw [Option.some.injEq] at hj'
    rw [← hj, ← hj'] at hne
    exact absurd rfl hne
  · rw [hj, Option.some.injEq] at hj'
    exact absurd (by rw [hj']) hne

end Actions

lemma dropsSafely_of_answer (h : w.Valid) {result : Status × World P}
    (hanswer : answer w action = some result) : DropsSafely w action result.2 := by
  cases action with
  | acquire digest memory =>
    rw [answer, Option.some.injEq] at hanswer
    exact hanswer ▸ (sameDrops_acquire digest memory).safely _
  | release i =>
    rw [answer] at hanswer
    split_ifs at hanswer
    rw [Option.some.injEq] at hanswer
    exact hanswer ▸ (sameDrops_of_eq rfl : SameDrops w (w.release (.raw i)).2).safely _
  | beginClose =>
    rw [answer, Option.some.injEq] at hanswer
    exact hanswer ▸ (sameDrops_of_eq rfl : SameDrops w w.beginClose.2).safely _
  | quiesce =>
    rw [answer, Option.some.injEq] at hanswer
    exact hanswer ▸ (sameDrops_of_eq rfl : SameDrops w w.quiesce.2).safely _
  | leaseDestroy =>
    rw [answer, Option.some.injEq] at hanswer
    exact hanswer ▸ sameDrops_leaseDestroy.safely _
  | operationBegin digest memory recordMemory =>
    rw [answer, Option.some.injEq] at hanswer
    exact hanswer ▸ (sameDrops_operationBegin digest memory recordMemory).safely _
  | operationComplete i terminalState =>
    obtain ⟨op, -, rfl⟩ := World.of_operation hanswer
    exact (sameDrops_operationComplete terminalState).safely _
  | providerEnter i =>
    obtain ⟨op, -, rfl⟩ := World.of_operation hanswer
    exact sameDrops_providerEnter.safely _
  | providerLeave i =>
    obtain ⟨op, -, rfl⟩ := World.of_operation hanswer
    exact sameDrops_providerLeave.safely _
  | requestCancel i =>
    obtain ⟨op, -, rfl⟩ := World.of_operation hanswer
    apply SameDrops.safely
    exact sameDrops_of_eq rfl
  | operationDestroy i =>
    obtain ⟨op, -, rfl⟩ := World.of_operation hanswer
    exact sameDrops_operationDestroy.safely _
  | transportCreate digest capacity payloadSize typed memory retained =>
    rw [answer, Option.some.injEq] at hanswer
    exact hanswer ▸
      (sameDrops_transportCreate digest capacity payloadSize typed memory retained).safely _
  | sendPrepare i source sourceSize memory recordMemory =>
    obtain ⟨t, hi, rfl⟩ := World.of_lock hanswer
    exact (sameDrops_sendPrepare hi source sourceSize memory recordMemory).safely _
  | sendCommitSelect k memory =>
    rw [answer] at hanswer
    split at hanswer
    next i source hk =>
      obtain ⟨t, ht, rfl⟩ := Option.map_eq_some_iff.1 hanswer
      exact (sameDrops_sendCommitSelect source memory).safely _
    next => cases hanswer
  | sendCommitAppend k =>
    rw [answer] at hanswer
    split at hanswer
    next i source hk =>
      obtain ⟨t, hi, rfl⟩ := World.of_lock hanswer
      apply SameDrops.safely
      exact sameDrops_set hi rfl rfl rfl
    next => cases hanswer
  | sendCancel k =>
    rw [answer] at hanswer
    split at hanswer
    next i source hk =>
      obtain ⟨t, hi, rfl⟩ := World.of_lock hanswer
      apply SameDrops.safely
      exact sameDrops_set hi rfl rfl rfl
    next i hk =>
      obtain ⟨t, hi, rfl⟩ := World.of_lock hanswer
      apply SameDrops.safely
      exact sameDrops_set hi rfl rfl rfl
    next => cases hanswer
  | receiveAcquire i memory recordMemory =>
    obtain ⟨t, hi, rfl⟩ := World.of_lock hanswer
    exact (sameDrops_receiveAcquire hi memory recordMemory).safely _
  | receiveCommit k destinationSize =>
    rw [answer] at hanswer
    split at hanswer
    next i node hk =>
      obtain ⟨t, hi, rfl⟩ := World.of_lock hanswer
      exact (sameDrops_receiveCommit hi node destinationSize).safely _
    next => cases hanswer
  | receiveCancelDrop k =>
    rw [answer] at hanswer
    split at hanswer
    next i node hk =>
      obtain ⟨t, hi, rfl⟩ := World.of_transport hanswer
      exact dropsSafely_receiveCancelDrop hi hk
    next => cases hanswer
  | receiveTakeMove k memory retained =>
    rw [answer] at hanswer
    split at hanswer
    next i node hk =>
      obtain ⟨t, hi, rfl⟩ := World.of_transport hanswer
      exact (sameDrops_receiveTakeMove hi node memory
        retained).safely _
    next => cases hanswer
  | receiveRelease k =>
    rw [answer] at hanswer
    split at hanswer
    next i hk =>
      obtain ⟨t, ht, rfl⟩ := Option.map_eq_some_iff.1 hanswer
      apply SameDrops.safely
      exact sameDrops_of_eq rfl
    next i hk =>
      obtain ⟨t, ht, rfl⟩ := Option.map_eq_some_iff.1 hanswer
      apply SameDrops.safely
      exact sameDrops_of_eq rfl
    next => cases hanswer
  | closeBegin i =>
    obtain ⟨t, hi, rfl⟩ := World.of_lock hanswer
    exact (sameDrops_closeBegin hi).safely _
  | closeDetach i =>
    obtain ⟨t, ht, rfl⟩ := Option.map_eq_some_iff.1 hanswer
    obtain ⟨ht, -⟩ := Option.filter_eq_some_iff.1 ht
    exact (sameDrops_closeDetach (World.transport?_eq_some ht).1).safely _
  | closeDropNode i =>
    obtain ⟨t, ht, hresult⟩ := Option.bind_eq_some_iff.1 hanswer
    split at hresult
    next => cases hresult
    next node rest hdetached =>
      rw [Option.some.injEq] at hresult
      exact hresult ▸ dropsSafely_closeDropNode h (World.transport?_eq_some ht).1 hdetached _
  | closeFinish i =>
    obtain ⟨t, ht, rfl⟩ := Option.map_eq_some_iff.1 hanswer
    obtain ⟨ht, -⟩ := Option.filter_eq_some_iff.1 ht
    apply SameDrops.safely
    exact sameDrops_set (World.lock?_eq_some ht).1 rfl rfl rfl
  | transportDestroy i =>
    obtain ⟨t, hi, rfl⟩ := World.of_transport hanswer
    exact (sameDrops_transportDestroy hi).safely _

/-! ## In every run -/

lemma valid_of_reachable {policy : Policy} {digest : Digest}
    (h : Reachable step (World.create P policy digest) w) : w.Valid :=
  h.induction (World.Valid.create policy digest) fun _ _ _ hw hstep => hw.step hstep

/-- **Conservation.**  In every state that the system reaches, by any interleaving of its
actions, tokens and payloads are conserved, and the next action drops payloads safely. -/
theorem reachable_conserves (policy : Policy) (digest : Digest) (w : World P)
    (h : Reachable step (World.create P policy digest) w) :
    w.Conserves ∧ ∀ action w', step w action = some w' → DropsSafely w action w' := by
  have hvalid := valid_of_reachable h
  refine ⟨hvalid.conserves, fun action w' hstep => ?_⟩
  obtain ⟨status, hanswer⟩ := World.answer_of_step hstep
  exact dropsSafely_of_answer hvalid hanswer

/-- A digest with a byte that is not zero. -/
def ones : Digest := fun _ => 1

/-- Two payloads are committed to a transport with a shared lease, and two receivers each take
one. -/
def twoReceivers : List (Action ℕ) :=
  [.transportCreate ones 2 4 false true true,
    .sendPrepare 0 10 4 true true, .sendCommitSelect 0 true, .sendCommitAppend 0,
    .sendPrepare 0 20 4 true true, .sendCommitSelect 1 true, .sendCommitAppend 1,
    .receiveAcquire 0 true true, .receiveAcquire 0 true true]

/-- The second receiver gets its payload first; the transport is closed and destroyed. -/
def crossedReceipts : List (Action ℕ) :=
  twoReceivers ++ [.receiveCommit 3 4, .receiveCommit 2 4, .closeBegin 0, .closeDetach 0,
    .closeFinish 0, .transportDestroy 0, .leaseDestroy]

theorem crossedReceipts_conserve : ∃ w,
    run step (World.create ℕ .shared ones) crossedReceipts = some w ∧ w.Conserves ∧
      ∀ action w', step w action = some w' → DropsSafely w action w' := by
  have hsome : (run step (World.create ℕ .shared ones) crossedReceipts).isSome = true := by
    decide
  obtain ⟨w, hw⟩ := Option.isSome_iff_exists.1 hsome
  exact ⟨w, hw, reachable_conserves .shared ones w ⟨_, hw⟩⟩

/-- `receive_cancel` drops a payload while tokens are active, and the payloads of a shared lease
can be received in another order than they were committed in. -/
theorem cancel_drops_while_leased :
    (¬∀ (policy : Policy) (digest : Digest) (w w' : World ℕ) (action : Action ℕ),
      Reachable step (World.create ℕ policy digest) w → step w action = some w' →
        DropsIdle w w') ∧
    ¬∀ (policy : Policy) (digest : Digest) (w : World ℕ),
      Reachable step (World.create ℕ policy digest) w →
        ∀ t ∈ w.transports, t.received.Sublist t.committed := by
  constructor
  · intro hclaim
    have hbefore : (run step (World.create ℕ .shared ones) twoReceivers).map
        (fun w => (w.transports.map (·.dropped), w.memory.lease.records.length)) =
          some ([[]], 2) := by decide
    have hafter : ((run step (World.create ℕ .shared ones) twoReceivers).bind
        (fun w => step w (.receiveCancelDrop 2))).map (fun w => w.transports.map (·.dropped)) =
          some [[10]] := by decide
    obtain ⟨w, hw, hbefore⟩ := Option.map_eq_some_iff.1 hbefore
    rw [hw] at hafter
    obtain ⟨w', hw', hafter⟩ := Option.map_eq_some_iff.1 hafter
    rw [Prod.mk.injEq] at hbefore
    obtain ⟨t, ht, hdropped⟩ := List.map_eq_singleton_iff.1 hbefore.1
    obtain ⟨t', ht', hdropped'⟩ := List.map_eq_singleton_iff.1 hafter
    have hrecords := hclaim .shared ones w w' (.receiveCancelDrop 2) ⟨_, hw⟩ hw' 0 t t'
      (by rw [ht]; rfl) (by rw [ht']; rfl) (by rw [hdropped, hdropped']; simp)
    rw [hrecords] at hbefore
    exact nomatch hbefore.2
  · intro hclaim
    have hafter : (run step (World.create ℕ .shared ones) crossedReceipts).map
        (fun w => w.transports.map fun t => (t.received, t.committed)) =
          some [([20, 10], [10, 20])] := by decide
    obtain ⟨w, hw, hafter⟩ := Option.map_eq_some_iff.1 hafter
    obtain ⟨t, ht, hlists⟩ := List.map_eq_singleton_iff.1 hafter
    rw [Prod.mk.injEq] at hlists
    have hsub := hclaim .shared ones w ⟨_, hw⟩ t (by rw [ht]; exact List.mem_singleton_self t)
    rw [hlists.1, hlists.2] at hsub
    exact absurd hsub (by decide)

end Lease

end Chtholly
