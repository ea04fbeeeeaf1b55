import Mathlib.Algebra.GroupWithZero.Nat
import Mathlib.Data.Multiset.AddSub
import Mathlib.Algebra.Order.Group.Multiset
import Chtholly.Lease.Transport

/-!
# The invariant of leases and transports

What holds between the actions: a transport counts its queue and its reservations, and each
payload that was committed to it is in one place.  There is one lemma for each action of the
system.

## Main definitions

* `Lease.PayloadTransport.Valid` — the invariant of one transport.
* `Lease.World.Valid` — the invariant of the system.

## Main results

* `Lease.World.Valid.step` — every action keeps the invariant.
-/

set_option autoImplicit false

namespace Chtholly

namespace Lease

variable {P : Type}

/-! ## What a payload token stands for -/

/-- The slot of the queue that a token keeps free. -/
def Phase.reserved : Phase P → ℕ
  | .prepared _ => 1
  | .moving _ => 1
  | .refused => 1
  | .acquired _ => 0
  | .cancelled => 0
  | .taken => 0
  | .freed => 0

/-- The payload that a token has taken from the queue. -/
def Phase.held : Phase P → Multiset P
  | .prepared _ => 0
  | .moving _ => 0
  | .refused => 0
  | .acquired node => {node}
  | .cancelled => 0
  | .taken => 0
  | .freed => 0

def PayloadToken.reserves (i : ℕ) (token : PayloadToken P) : ℕ :=
  if token.transport = i then token.phase.reserved else 0

def PayloadToken.holds (i : ℕ) (token : PayloadToken P) : Multiset P :=
  if token.transport = i then token.phase.held else 0

section Sums

variable {tokens : List (PayloadToken P)} {k i j : ℕ} {phase phase' : Phase P}

/-- The reservations on transport `i`. -/
def reserved (tokens : List (PayloadToken P)) (i : ℕ) : ℕ :=
  (tokens.map (PayloadToken.reserves i)).sum

/-- The payloads of transport `i` that tokens have taken. -/
def held (tokens : List (PayloadToken P)) (i : ℕ) : Multiset P :=
  (tokens.map (PayloadToken.holds i)).sum

lemma reserved_set (h : tokens[k]? = some ⟨i, phase⟩) (phase' : Phase P) :
    reserved (tokens.set k ⟨i, phase'⟩) i + phase.reserved = reserved tokens i + phase'.reserved := by
  have hsum := Interleaving.sum_map_set (PayloadToken.reserves i) (y := ⟨i, phase'⟩) h
  rwa [PayloadToken.reserves, PayloadToken.reserves, if_pos rfl, if_pos rfl] at hsum

lemma held_set (h : tokens[k]? = some ⟨i, phase⟩) (phase' : Phase P) :
    held (tokens.set k ⟨i, phase'⟩) i + phase.held = held tokens i + phase'.held := by
  have hsum := Interleaving.sum_map_set (PayloadToken.holds i) (y := ⟨i, phase'⟩) h
  rwa [PayloadToken.holds, PayloadToken.holds, if_pos rfl, if_pos rfl] at hsum

lemma reserved_set_of_ne (h : tokens[k]? = some ⟨j, phase⟩) (hne : j ≠ i) :
    reserved (tokens.set k ⟨j, phase'⟩) i = reserved tokens i := by
  have hsum := Interleaving.sum_map_set (PayloadToken.reserves i) (y := ⟨j, phase'⟩) h
  rwa [PayloadToken.reserves, PayloadToken.reserves, if_neg hne, if_neg hne] at hsum

lemma held_set_of_ne (h : tokens[k]? = some ⟨j, phase⟩) (hne : j ≠ i) :
    held (tokens.set k ⟨j, phase'⟩) i = held tokens i := by
  have hsum := Interleaving.sum_map_set (PayloadToken.holds i) (y := ⟨j, phase'⟩) h
  rwa [PayloadToken.holds, PayloadToken.holds, if_neg hne, if_neg hne, add_zero, add_zero] at hsum

lemma reserved_append (tokens : List (PayloadToken P)) (i : ℕ) (token : PayloadToken P) :
    reserved (tokens ++ [token]) i = reserved tokens i + token.reserves i := by
  rw [reserved, List.map_append, List.sum_append]
  rfl

lemma held_append (tokens : List (PayloadToken P)) (i : ℕ) (token : PayloadToken P) :
    held (tokens ++ [token]) i = held tokens i + token.holds i := by
  rw [held, List.map_append, List.sum_append, List.map_singleton, List.sum_singleton]
  rfl

end Sums

/-! ## The invariant -/

/-- A `close` has detached the queue. -/
def PayloadTransport.draining (t : PayloadTransport P) : Prop :=
  t.callbacks ≠ 0 ∨ t.quiesced = true ∨ t.discarded ≠ []

/-- The invariant of the transport `i`.  The last two fields are about an exclusive lease, where
a payload that was taken is received or dropped before the next one is taken. -/
structure PayloadTransport.Valid (m : Memory Holder) (tokens : List (PayloadToken P)) (i : ℕ)
    (t : PayloadTransport P) : Prop where
  size_eq : t.size = t.queue.length
  reservations_eq : t.reservations = reserved tokens i
  bounded : t.size + t.reservations ≤ t.capacity
  committed_eq : t.committed = t.taken ++ t.discarded ++ t.detached ++ t.queue
  taken_eq : (t.taken : Multiset P) = t.received + t.cancelled + held tokens i
  closing : t.closed = true → m.lease.isClosing = true
  locked : t.locked = true → t.closed = true
  draining : t.draining → m.lease.isClosing = true ∧ m.lease.active = 0 ∧ t.queue = []
  detached_nil : t.callbacks = 0 ∨ t.quiesced = true → t.detached = []
  freed : t.freed = true → t.quiesced = true
  order : m.lease.policy = .exclusive → t.received.Sublist t.taken
  order_held : m.lease.policy = .exclusive → ∀ (k : ℕ) (node : P), tokens[k]? = some ⟨i, .acquired node⟩ →
    ∃ before, t.taken = before ++ [node] ∧ t.received.Sublist before

/-- The invariant of the system: beside the invariants of the lease and of the transports, an
operation and a payload token hold a resource token exactly as long as they need it. -/
structure World.Valid (w : World P) : Prop where
  memory : w.memory.Valid
  raw : ∀ i, w.memory.acquired.count (.raw i) = if i < w.raws then 1 else 0
  operation : ∀ i, w.memory.acquired.count (.operation i) =
    if i < w.operations.length then 1 else 0
  payload : ∀ k, w.memory.acquired.count (.payload k) =
    if k < w.payloadTokens.length then 1 else 0
  operations : ∀ (i : ℕ) (op : ResourceOperation), w.operations[i]? = some op →
    ((w.memory.tokens (.operation i)).isSome ↔ op.busy = true)
  payloadTokens : ∀ (k : ℕ) (token : PayloadToken P), w.payloadTokens[k]? = some token →
    ((w.memory.tokens (.payload k)).isSome ↔ token.phase ≠ .freed)
  transport_lt : ∀ token ∈ w.payloadTokens, token.transport < w.transports.length
  transports : ∀ (i : ℕ) (t : PayloadTransport P), w.transports[i]? = some t → t.Valid w.memory w.payloadTokens i

lemma World.Valid.create (policy : Policy) (digest : Digest) :
    (World.create P policy digest).Valid where
  memory := Memory.Valid.create policy
  raw := fun _ => rfl
  operation := fun _ => rfl
  payload := fun _ => rfl
  operations := fun _ _ h => nomatch h
  payloadTokens := fun _ _ h => nomatch h
  transport_lt := fun _ h => nomatch h
  transports := fun _ _ h => nomatch h

namespace PayloadTransport

variable {m m' : Memory Holder} {tokens : List (PayloadToken P)} {i j k : ℕ}
  {t : PayloadTransport P} {phase phase' : Phase P}

/-- A transport does not notice what others do with the lease. -/
lemma Valid.advance (h : t.Valid m tokens i) (hm : m.Advances m') : t.Valid m' tokens i :=
  { h with
    closing := fun hc => hm.closing (h.closing hc)
    draining := fun hd => by
      obtain ⟨hclosing, hzero, hqueue⟩ := h.draining hd
      exact ⟨hm.closing hclosing, hm.idle hclosing hzero, hqueue⟩
    order := fun hp => h.order (hm.policy ▸ hp)
    order_held := fun hp => h.order_held (hm.policy ▸ hp) }

/-- Nor what happens to the tokens of other transports. -/
lemma Valid.set_of_ne (h : t.Valid m tokens i) (hk : tokens[k]? = some ⟨j, phase⟩) (hne : j ≠ i) :
    t.Valid m (tokens.set k ⟨j, phase'⟩) i :=
  { h with
    reservations_eq := by rw [reserved_set_of_ne hk hne, h.reservations_eq]
    taken_eq := by rw [held_set_of_ne hk hne, h.taken_eq]
    order_held := fun hp k' node hk' => by
      refine h.order_held hp k' node ?_
      rw [List.getElem?_set] at hk'
      split_ifs at hk' with hkk hlt
      · rw [Option.some.injEq, PayloadToken.mk.injEq] at hk'
        exact absurd hk'.1 hne
      · exact hk' }

lemma Valid.append_of_ne (h : t.Valid m tokens i) (hne : j ≠ i) :
    t.Valid m (tokens ++ [⟨j, phase⟩]) i :=
  { h with
    reservations_eq := by
      rw [reserved_append, PayloadToken.reserves, if_neg hne, h.reservations_eq, add_zero]
    taken_eq := by
      rw [held_append, PayloadToken.holds, if_neg hne, h.taken_eq, add_zero]
    order_held := fun hp k node hk => by
      refine h.order_held hp k node ?_
      rw [List.getElem?_append] at hk
      split_ifs at hk with hlt
      · exact hk
      · rw [List.getElem?_singleton] at hk
        split_ifs at hk
        rw [Option.some.injEq, PayloadToken.mk.injEq] at hk
        exact absurd hk.1 hne }

end PayloadTransport

namespace World

variable {w : World P} {m' : Memory Holder} {i k : ℕ} {t t' : PayloadTransport P}
  {op op' : ResourceOperation} {phase phase' : Phase P}

/-! ## Changes of the world -/

/-- Handles are given out in order, each once. -/
lemma count_snoc {c : ℕ → Holder} (hc : Function.Injective c) {l : List Holder} {n : ℕ}
    (h : ∀ j, l.count (c j) = if j < n then 1 else 0) (j : ℕ) :
    (l ++ [c n]).count (c j) = if j < n + 1 then 1 else 0 := by
  rw [List.count_append, h j, List.count_singleton]
  by_cases hj : j = n
  · subst hj
    simp
  · have hne : (c n == c j) = false := by
      rw [beq_eq_false_iff_ne]
      exact fun heq => hj (hc heq).symm
    have hiff : j < n + 1 ↔ j < n := by omega
    rw [hne, if_neg Bool.false_ne_true, add_zero]
    simp only [hiff]

/-- A handle of another kind. -/
lemma count_snoc_of_ne {a b : Holder} (h : a ≠ b) (l : List Holder) :
    (l ++ [b]).count a = l.count a := by
  have hzero : [b].count a = 0 := List.count_eq_zero_of_not_mem (by simpa using h)
  rw [List.count_append, hzero, add_zero]

/-- A change of the lease that no token takes part in. -/
lemma Valid.quiet (h : w.Valid) (hm : m'.Valid) (hadvances : w.memory.Advances m')
    (htokens : m'.tokens = w.memory.tokens) (hacquired : m'.acquired = w.memory.acquired) :
    ({ w with memory := m' } : World P).Valid where
  memory := hm
  raw := by rw [hacquired]; exact h.raw
  operation := by rw [hacquired]; exact h.operation
  payload := by rw [hacquired]; exact h.payload
  operations := by rw [htokens]; exact h.operations
  payloadTokens := by rw [htokens]; exact h.payloadTokens
  transport_lt := h.transport_lt
  transports := fun i t hi => (h.transports i t hi).advance hadvances

lemma Valid.setTransport (h : w.Valid) (ht : t'.Valid w.memory w.payloadTokens i) :
    (w.setTransport i t').Valid :=
  { h with
    transport_lt := fun token htoken => by
      rw [World.setTransport, List.length_set]
      exact h.transport_lt token htoken
    transports := by
      intro j t hj
      rw [World.setTransport, List.getElem?_set] at hj
      split_ifs at hj with hij hlt
      · rw [Option.some.injEq] at hj
        subst hj hij
        exact ht
      · exact h.transports j t hj }

/-- A payload token that exists moves on, with a change of its transport; `m'` is the lease as it
was, or with the token released. -/
lemma Valid.moveToken (h : w.Valid) (hk : w.payloadTokens[k]? = some ⟨i, phase⟩) (hm : m'.Valid)
    (hadvances : w.memory.Advances m') (hacquired : m'.acquired = w.memory.acquired)
    (htokens : ∀ a, a ≠ .payload k → m'.tokens a = w.memory.tokens a)
    (htoken : (m'.tokens (.payload k)).isSome ↔ phase' ≠ .freed)
    (ht : t'.Valid m' (w.payloadTokens.set k ⟨i, phase'⟩) i) :
    ({ w with
      memory := m'
      transports := w.transports.set i t'
      payloadTokens := w.payloadTokens.set k ⟨i, phase'⟩ } : World P).Valid where
  memory := hm
  raw := by rw [hacquired]; exact h.raw
  operation := by rw [hacquired]; exact h.operation
  payload := by rw [hacquired, List.length_set]; exact h.payload
  operations := fun j op hj => by
    rw [htokens _ (by simp)]
    exact h.operations j op hj
  payloadTokens := fun k' token hk' => by
    rw [List.getElem?_set] at hk'
    split_ifs at hk' with hkk hlt
    · rw [Option.some.injEq] at hk'
      subst hk' hkk
      exact htoken
    · rw [htokens _ (by simpa using fun h => hkk h.symm)]
      exact h.payloadTokens k' token hk'
  transport_lt := fun token htoken => by
    rw [List.length_set]
    rcases List.mem_or_eq_of_mem_set htoken with htoken | rfl
    · exact h.transport_lt token htoken
    · have hlt := h.transport_lt _ (List.mem_of_getElem? hk)
      exact hlt
  transports := fun j t hj => by
    rw [List.getElem?_set] at hj
    split_ifs at hj with hij hlt
    · rw [Option.some.injEq] at hj
      subst hj hij
      exact ht
    · exact ((h.transports j t hj).advance hadvances).set_of_ne hk hij

/-- A new payload token, with a change of its transport. -/
lemma Valid.addToken (h : w.Valid) (hi : w.transports[i]? = some t) (hm : m'.Valid) (hadvances : w.memory.Advances m')
    (hacquired : m'.acquired = w.memory.acquired ++ [.payload w.payloadTokens.length])
    (htokens : ∀ a, a ≠ .payload w.payloadTokens.length → m'.tokens a = w.memory.tokens a)
    (htoken : (m'.tokens (.payload w.payloadTokens.length)).isSome) (hphase : phase ≠ .freed)
    (ht : t'.Valid m' (w.payloadTokens ++ [⟨i, phase⟩]) i) :
    ({ w with
      memory := m'
      payloadTokens := w.payloadTokens ++ [⟨i, phase⟩]
      transports := w.transports.set i t' } : World P).Valid where
  memory := hm
  raw := fun j => by
    rw [hacquired]
    exact (count_snoc_of_ne (by simp) _).trans (h.raw j)
  operation := fun j => by
    rw [hacquired]
    exact (count_snoc_of_ne (by simp) _).trans (h.operation j)
  payload := fun k => by
    rw [hacquired, count_snoc (fun _ _ => Holder.payload.inj) h.payload k, List.length_append,
      List.length_singleton]
  operations := fun j op hj => by
    rw [htokens _ (by simp)]
    exact h.operations j op hj
  payloadTokens := fun k token hk => by
    rw [List.getElem?_append] at hk
    split_ifs at hk with hlt
    · rw [htokens _ (by simpa using hlt.ne)]
      exact h.payloadTokens k token hk
    · rw [List.getElem?_singleton] at hk
      split_ifs at hk with hzero
      rw [Option.some.injEq] at hk
      have hlen : k = w.payloadTokens.length := by omega
      subst hk hlen
      exact ⟨fun _ => hphase, fun _ => htoken⟩
  transport_lt := fun token htoken => by
    rw [List.length_set]
    rcases List.mem_append.1 htoken with htoken | htoken
    · exact h.transport_lt token htoken
    · rw [List.mem_singleton.1 htoken]
      exact (List.getElem?_eq_some_iff.1 hi).1
  transports := fun j t hj => by
    rw [List.getElem?_set] at hj
    split_ifs at hj with hij hlt
    · rw [Option.some.injEq] at hj
      subst hj hij
      exact ht
    · exact ((h.transports j t hj).advance hadvances).append_of_ne hij

/-- An operation that exists changes. -/
lemma Valid.moveOperation (h : w.Valid) (hm : m'.Valid)
    (hadvances : w.memory.Advances m') (hacquired : m'.acquired = w.memory.acquired)
    (htokens : ∀ a, a ≠ .operation i → m'.tokens a = w.memory.tokens a)
    (htoken : (m'.tokens (.operation i)).isSome ↔ op'.busy = true) :
    ({ w with memory := m', operations := w.operations.set i op' } : World P).Valid where
  memory := hm
  raw := by rw [hacquired]; exact h.raw
  operation := by rw [hacquired, List.length_set]; exact h.operation
  payload := by rw [hacquired]; exact h.payload
  operations := fun j op hj => by
    rw [List.getElem?_set] at hj
    split_ifs at hj with hij hlt
    · rw [Option.some.injEq] at hj
      subst hj hij
      exact htoken
    · rw [htokens _ (by simpa using fun h => hij h.symm)]
      exact h.operations j op hj
  payloadTokens := fun k token hk => by
    rw [htokens _ (by simp)]
    exact h.payloadTokens k token hk
  transport_lt := h.transport_lt
  transports := fun j t hj => (h.transports j t hj).advance hadvances

/-! ## Reading the world -/

lemma transport?_eq_some (h : w.transport? i = some t) :
    w.transports[i]? = some t ∧ t.freed = false := by
  obtain ⟨ht, hfreed⟩ := Option.filter_eq_some_iff.1 h
  exact ⟨ht, by simpa using hfreed⟩

lemma lock?_eq_some (h : w.lock? i = some t) : w.transports[i]? = some t ∧ t.freed = false :=
  transport?_eq_some (Option.filter_eq_some_iff.1 h).1

lemma operation?_eq_some (h : w.operation? i = some op) :
    w.operations[i]? = some op ∧ op.freed = false := by
  obtain ⟨hop, hfreed⟩ := Option.filter_eq_some_iff.1 h
  exact ⟨hop, by simpa using hfreed⟩

section

variable {result : Status × World P}

/-- A call on a transport that exists, by its answer. -/
lemma of_transport {f : PayloadTransport P → Status × World P}
    (h : (w.transport? i).map f = some result) : ∃ t, w.transports[i]? = some t ∧ f t = result := by
  obtain ⟨t, ht, hresult⟩ := Option.map_eq_some_iff.1 h
  exact ⟨t, (transport?_eq_some ht).1, hresult⟩

lemma of_lock {f : PayloadTransport P → Status × World P}
    (h : (w.lock? i).map f = some result) : ∃ t, w.transports[i]? = some t ∧ f t = result := by
  obtain ⟨t, ht, hresult⟩ := Option.map_eq_some_iff.1 h
  exact ⟨t, (lock?_eq_some ht).1, hresult⟩

lemma of_operation {f : ResourceOperation → Status × World P}
    (h : (w.operation? i).map f = some result) : ∃ op, w.operations[i]? = some op ∧ f op = result := by
  obtain ⟨op, hop, hresult⟩ := Option.map_eq_some_iff.1 h
  exact ⟨op, (operation?_eq_some hop).1, hresult⟩

end

lemma setTransport_self (h : w.transports[i]? = some t) : w.setTransport i t = w := by
  obtain ⟨hlt, rfl⟩ := List.getElem?_eq_some_iff.1 h
  rw [World.setTransport, List.set_getElem_self]

/-- Where no token was acquired, there is none. -/
lemma Valid.tokens_eq_none (h : w.Valid) {a : Holder} (ha : w.memory.acquired.count a = 0) :
    w.memory.tokens a = none := by
  have hcount := h.memory.counts a
  rw [ha] at hcount
  by_contra hsome
  rw [if_pos (Option.isSome_iff_ne_none.2 hsome)] at hcount
  omega

lemma Valid.payload_fresh (h : w.Valid) :
    w.memory.tokens (.payload w.payloadTokens.length) = none :=
  h.tokens_eq_none (by rw [h.payload, if_neg (Nat.lt_irrefl _)])

lemma Valid.operation_fresh (h : w.Valid) :
    w.memory.tokens (.operation w.operations.length) = none :=
  h.tokens_eq_none (by rw [h.operation, if_neg (Nat.lt_irrefl _)])

lemma Valid.raw_fresh (h : w.Valid) : w.memory.tokens (.raw w.raws) = none :=
  h.tokens_eq_none (by rw [h.raw, if_neg (Nat.lt_irrefl _)])

lemma Valid.active_pos (h : w.Valid) (hk : w.payloadTokens[k]? = some ⟨i, phase⟩)
    (hphase : phase ≠ .freed) : 0 < w.memory.lease.active :=
  h.memory.active_pos ((h.payloadTokens k _ hk).2 hphase)

end World

/-! ## The lease and the operations -/

namespace World

variable {w : World P} {i : ℕ} {op op' : ResourceOperation}

lemma Valid.acquire (h : w.Valid) (digest : Digest) (memory : Bool) :
    (w.acquire digest memory).2.Valid := by
  unfold World.acquire
  split
  next m hresult =>
    obtain ⟨rfl, hdigest, hopen, hpolicy⟩ := h.memory.acquire_ok h.raw_fresh hresult
    have hadvances := Memory.advances_issue hopen digest (.raw w.raws)
    exact
      { memory := h.memory.issue h.raw_fresh hpolicy hdigest
        raw := count_snoc (fun _ _ => Holder.raw.inj) h.raw
        operation := fun j => (count_snoc_of_ne (by simp) _).trans (h.operation j)
        payload := fun k => (count_snoc_of_ne (by simp) _).trans (h.payload k)
        operations := fun j op hj => by
          show ((w.memory.issue digest _).tokens _).isSome ↔ _
          rw [Memory.issue_tokens, if_neg (by simp)]
          exact h.operations j op hj
        payloadTokens := fun k token hk => by
          show ((w.memory.issue digest _).tokens _).isSome ↔ _
          rw [Memory.issue_tokens, if_neg (by simp)]
          exact h.payloadTokens k token hk
        transport_lt := h.transport_lt
        transports := fun j t hj => (h.transports j t hj).advance hadvances }
  next status m hstatus hresult =>
    rw [h.memory.acquire_failed h.raw_fresh hresult hstatus]
    exact h

/-- A release at an address that no operation and no payload token uses. -/
lemma Valid.releaseRaw (h : w.Valid) (i : ℕ) : (w.release (.raw i)).2.Valid := by
  rw [World.release]
  cases htoken : w.memory.tokens (.raw i) with
  | none =>
    rw [Memory.release_none htoken]
    exact h
  | some token =>
    rw [h.memory.release_eq htoken]
    exact
      { memory := h.memory.withdraw htoken
        raw := h.raw
        operation := h.operation
        payload := h.payload
        operations := fun j op hj => by
          show ((w.memory.withdraw _ _).tokens _).isSome ↔ _
          rw [Memory.withdraw_tokens, if_neg (by simp)]
          exact h.operations j op hj
        payloadTokens := fun k token hk => by
          show ((w.memory.withdraw _ _).tokens _).isSome ↔ _
          rw [Memory.withdraw_tokens, if_neg (by simp)]
          exact h.payloadTokens k token hk
        transport_lt := h.transport_lt
        transports := fun j t hj =>
          (h.transports j t hj).advance (Memory.advances_withdraw _) }

lemma Valid.beginClose (h : w.Valid) : w.beginClose.2.Valid :=
  h.quiet h.memory.beginClose (Memory.advances_beginClose _) (Memory.beginClose_tokens _).1
    (Memory.beginClose_tokens _).2.1

lemma Valid.quiesce (h : w.Valid) : w.quiesce.2.Valid :=
  h.quiet h.memory.quiesce (Memory.advances_quiesce _) (Memory.quiesce_tokens _).1
    (Memory.quiesce_tokens _).2.1

lemma Valid.leaseDestroy (h : w.Valid) : w.leaseDestroy.2.Valid := by
  rw [World.leaseDestroy]
  split_ifs
  · exact h
  · exact { h with }

lemma Valid.operationBegin (h : w.Valid) (digest : Digest) (memory recordMemory : Bool) :
    (w.operationBegin digest memory recordMemory).2.Valid := by
  rw [World.operationBegin]
  split_ifs
  · exact h
  split
  next m hresult =>
    obtain ⟨rfl, hdigest, hopen, hpolicy⟩ := h.memory.acquire_ok h.operation_fresh hresult
    have hadvances :=
      Memory.advances_issue hopen digest (.operation w.operations.length)
    exact
      { memory := h.memory.issue h.operation_fresh hpolicy hdigest
        raw := fun j => (count_snoc_of_ne (by simp) _).trans (h.raw j)
        operation := fun j => by
          rw [List.length_append]
          exact count_snoc (fun _ _ => Holder.operation.inj) h.operation j
        payload := fun k => (count_snoc_of_ne (by simp) _).trans (h.payload k)
        operations := fun j op hj => by
          show ((w.memory.issue digest _).tokens _).isSome ↔ _
          rw [List.getElem?_append] at hj
          split_ifs at hj with hlt
          · rw [Memory.issue_tokens, if_neg (by simpa using hlt.ne)]
            exact h.operations j op hj
          · rw [List.getElem?_singleton] at hj
            split_ifs at hj with hzero
            rw [Option.some.injEq] at hj
            have hlen : j = w.operations.length := by omega
            subst hj hlen
            rw [Memory.issue_tokens, if_pos rfl]
            exact ⟨fun _ => rfl, fun _ => rfl⟩
        payloadTokens := fun k token hk => by
          show ((w.memory.issue digest _).tokens _).isSome ↔ _
          rw [Memory.issue_tokens, if_neg (by simp)]
          exact h.payloadTokens k token hk
        transport_lt := h.transport_lt
        transports := fun j t hj => (h.transports j t hj).advance hadvances }
  next status m hstatus hresult =>
    rw [h.memory.acquire_failed h.operation_fresh hresult hstatus]
    exact h

/-- A change of an operation that needs its token as before. -/
lemma Valid.setOperation (h : w.Valid) (hop : w.operations[i]? = some op)
    (hbusy : op'.busy = op.busy) : (w.setOperation i op').Valid := by
  refine h.moveOperation h.memory (Memory.Advances.refl _) rfl (fun _ _ => rfl) ?_
  rw [hbusy]
  exact h.operations i op hop

/-- An operation that gives up its token. -/
lemma Valid.finishOperation (h : w.Valid) (hop : w.operations[i]? = some op)
    (hbusy : op.busy = true) (hbusy' : op'.busy = false) :
    ((w.setOperation i op').release (.operation i)).2.Valid := by
  obtain ⟨token, htoken⟩ := Option.isSome_iff_exists.1 ((h.operations i op hop).2 hbusy)
  have hrelease : ((w.setOperation i op').release (.operation i)).2 =
      { w with
        memory := w.memory.withdraw (.operation i) ⟨.operation i, token.generation⟩
        operations := w.operations.set i op' } := by
    rw [World.release, World.setOperation, h.memory.release_eq htoken]
  rw [hrelease]
  refine h.moveOperation (h.memory.withdraw htoken) (Memory.advances_withdraw _) rfl ?_ ?_
  · intro a ha
    rw [Memory.withdraw_tokens, if_neg ha]
  · rw [Memory.withdraw_tokens, if_pos rfl, hbusy']
    exact ⟨nofun, nofun⟩

lemma Valid.operationComplete (h : w.Valid) (hop : w.operations[i]? = some op)
    (terminalState : ℕ) : (w.operationComplete i op terminalState).2.Valid := by
  rw [World.operationComplete]
  split
  next state hstate _ =>
    have hbusy : op.busy = true := by rw [ResourceOperation.busy, hstate]; rfl
    split_ifs with hprovider
    · refine h.setOperation hop ?_
      rw [hbusy, ResourceOperation.busy, hprovider, Bool.or_true]
    · refine h.finishOperation hop hbusy ?_
      have hstate' : state ≠ .armed := by
        rintro rfl
        next hterminal =>
          unfold OperationState.ofTerminal at hterminal
          split at hterminal <;> exact nomatch hterminal
      rw [ResourceOperation.busy, decide_eq_false hstate', Bool.false_or]
      simpa using hprovider
  next => exact h

lemma Valid.providerEnter (h : w.Valid) (hop : w.operations[i]? = some op) :
    (w.providerEnter i op).2.Valid := by
  rw [World.providerEnter]
  split_ifs with harmed
  · refine h.setOperation hop ?_
    rw [ResourceOperation.busy, ResourceOperation.busy, harmed.1]
    rfl
  · exact h

lemma Valid.providerLeave (h : w.Valid) (hop : w.operations[i]? = some op) :
    (w.providerLeave i op).2.Valid := by
  rw [World.providerLeave]
  split_ifs with hprovider harmed
  · refine h.setOperation hop ?_
    rw [ResourceOperation.busy, ResourceOperation.busy, harmed]
    rfl
  · refine h.finishOperation hop ?_ ?_
    · rw [ResourceOperation.busy, hprovider, Bool.or_true]
    · rw [ResourceOperation.busy, decide_eq_false harmed]
      rfl
  · exact h

lemma Valid.operationDestroy (h : w.Valid) (hop : w.operations[i]? = some op) :
    (w.operationDestroy i op).2.Valid := by
  rw [World.operationDestroy]
  split_ifs
  · exact h
  · exact h.setOperation hop rfl

end World

/-! ## Payload tokens -/

namespace PayloadTransport

variable {m : Memory Holder} {tokens : List (PayloadToken P)} {i k : ℕ} {t : PayloadTransport P}

/-- As long as a token is active, no `close` has detached the queue. -/
lemma Valid.not_draining (h : t.Valid m tokens i) (hpos : 0 < m.lease.active) :
    t.callbacks = 0 ∧ t.quiesced = false ∧ t.discarded = [] ∧ t.detached = [] := by
  have hnot : ¬t.draining := fun hd => by
    have := (h.draining hd).2.1
    omega
  rw [PayloadTransport.draining, not_or, not_or, not_not, not_not, Bool.not_eq_true] at hnot
  exact ⟨hnot.1, hnot.2.1, hnot.2.2, h.detached_nil (.inl hnot.1)⟩

/-- Nor while tokens can still be acquired. -/
lemma Valid.not_draining_of_open (h : t.Valid m tokens i) (hopen : m.lease.isClosing = false) :
    t.closed = false ∧ t.callbacks = 0 ∧ t.quiesced = false ∧ t.discarded = [] ∧
      t.detached = [] := by
  have hnot : ¬t.draining := fun hd => by
    exact Bool.false_ne_true (hopen ▸ (h.draining hd).1)
  have hclosed : t.closed = false := by
    by_contra hc
    rw [Bool.not_eq_false] at hc
    exact Bool.false_ne_true (hopen ▸ h.closing hc)
  rw [PayloadTransport.draining, not_or, not_or, not_not, not_not, Bool.not_eq_true] at hnot
  exact ⟨hclosed, hnot.1, hnot.2.1, hnot.2.2, h.detached_nil (.inl hnot.1)⟩

/-- The tokens that hold payloads, after the token `k` has moved to a phase that holds none. -/
lemma acquired_of_set {phase : Phase P} (hphase : phase.held = 0) {k' : ℕ} {node : P}
    (h : (tokens.set k ⟨i, phase⟩)[k']? = some ⟨i, .acquired node⟩) :
    k' ≠ k ∧ tokens[k']? = some ⟨i, .acquired node⟩ := by
  rw [List.getElem?_set] at h
  split_ifs at h with hkk hlt
  · rw [Option.some.injEq, PayloadToken.mk.injEq] at h
    rw [h.2, Phase.held] at hphase
    simp at hphase
  · exact ⟨fun heq => hkk heq.symm, h⟩

end PayloadTransport

namespace World

variable {w : World P} {i k : ℕ} {t t' : PayloadTransport P} {phase phase' : Phase P}

/-- A call on a payload token that keeps its lease. -/
lemma Valid.setPhase (h : w.Valid) (hk : w.payloadTokens[k]? = some ⟨i, phase⟩)
    (hphase : phase ≠ .freed) (hphase' : phase' ≠ .freed)
    (ht : t'.Valid w.memory (w.payloadTokens.set k ⟨i, phase'⟩) i) :
    ((w.setTransport i t').setPhase k i phase').Valid :=
  h.moveToken hk h.memory (Memory.Advances.refl _) rfl (fun _ _ => rfl)
    ⟨fun _ => hphase', fun _ => (h.payloadTokens k _ hk).2 hphase⟩ ht

/-- A call on a payload token that releases its lease and frees it. -/
lemma Valid.freeToken (h : w.Valid) (hk : w.payloadTokens[k]? = some ⟨i, phase⟩)
    (hphase : phase ≠ .freed)
    (ht : t'.Valid w.memory (w.payloadTokens.set k ⟨i, .freed⟩) i) :
    (((w.setTransport i t').release (.payload k)).2.setPhase k i .freed).Valid := by
  obtain ⟨token, htoken⟩ := Option.isSome_iff_exists.1 ((h.payloadTokens k _ hk).2 hphase)
  have hworld : ((w.setTransport i t').release (.payload k)).2.setPhase k i .freed =
      { w with
        memory := w.memory.withdraw (.payload k) ⟨.payload k, token.generation⟩
        transports := w.transports.set i t'
        payloadTokens := w.payloadTokens.set k ⟨i, .freed⟩ } := by
    rw [World.release, World.setTransport, World.setPhase, h.memory.release_eq htoken]
  rw [hworld]
  refine h.moveToken hk (h.memory.withdraw htoken) (Memory.advances_withdraw _) rfl ?_ ?_
    (ht.advance (Memory.advances_withdraw _))
  · intro a ha
    rw [Memory.withdraw_tokens, if_neg ha]
  · rw [Memory.withdraw_tokens, if_pos rfl]
    exact ⟨nofun, fun hne => absurd rfl hne⟩

/-- With an exclusive lease, no second payload is held. -/
lemma Valid.held_unique (h : w.Valid) (hpolicy : w.memory.lease.policy = .exclusive)
    (hk : w.payloadTokens[k]? = some ⟨i, phase⟩) (hphase : phase ≠ .freed) {k' : ℕ}
    (hk' : w.payloadTokens[k']? = some ⟨i, phase'⟩) (hphase' : phase' ≠ .freed) : k' = k :=
  Holder.payload.inj (h.memory.holder_unique hpolicy ((h.payloadTokens k' _ hk').2 hphase')
    ((h.payloadTokens k _ hk).2 hphase))

/-! ### Sending -/

lemma Valid.sendPrepare (h : w.Valid) (hi : w.transports[i]? = some t) (source : P)
    (sourceSize : ℕ) (memory recordMemory : Bool) :
    (w.sendPrepare i t source sourceSize memory recordMemory).2.Valid := by
  unfold World.sendPrepare
  split_ifs with h₁ h₂ h₃ h₄
  · exact h
  · exact h
  · exact h
  · exact h
  split
  next m hresult =>
    obtain ⟨rfl, hdigest, hopen, hpolicy⟩ := h.memory.acquire_ok h.payload_fresh hresult
    have hadvances := Memory.advances_issue hopen w.memory.lease.descriptorDigest
      (.payload w.payloadTokens.length)
    have ht := (h.transports i t hi).advance hadvances
    refine h.addToken hi (h.memory.issue h.payload_fresh hpolicy rfl) hadvances rfl ?_ ?_ nofun ?_
    · intro a ha
      rw [Memory.issue_tokens, if_neg ha]
    · rw [Memory.issue_tokens, if_pos rfl]
      rfl
    · exact
        { ht with
          reservations_eq := by
            rw [reserved_append, ← ht.reservations_eq, PayloadToken.reserves, if_pos rfl]
            rfl
          bounded := by
            show t.size + (t.reservations + 1) ≤ t.capacity
            omega
          taken_eq := by
            rw [held_append, PayloadToken.holds, if_pos rfl, Phase.held, add_zero]
            exact ht.taken_eq
          order_held := by
            intro hp k node hk
            refine ht.order_held hp k node ?_
            rw [List.getElem?_append] at hk
            split_ifs at hk with hlt
            · exact hk
            · rw [List.getElem?_singleton] at hk
              split_ifs at hk
              simp at hk }
  next status m hstatus hresult =>
    rw [h.memory.acquire_failed h.payload_fresh hresult hstatus]
    exact h

/-- A token that gives back its reservation, and nothing else of its transport changes. -/
lemma Valid.unreserve (h : w.Valid) (hi : w.transports[i]? = some t)
    (hk : w.payloadTokens[k]? = some ⟨i, phase⟩) (hphase : phase.reserved = 1)
    (hheld : phase.held = 0) :
    ({ t with reservations := t.reservations - 1 } : PayloadTransport P).Valid w.memory
      (w.payloadTokens.set k ⟨i, .freed⟩) i := by
  have ht := h.transports i t hi
  have hreserved := reserved_set hk .freed
  have hbounded := ht.bounded
  rw [hphase, Phase.reserved] at hreserved
  exact
    { ht with
      reservations_eq := by
        show t.reservations - 1 = _
        rw [ht.reservations_eq]
        omega
      bounded := by
        show t.size + (t.reservations - 1) ≤ t.capacity
        omega
      taken_eq := by
        have hsum := held_set hk .freed
        rw [hheld, Phase.held, add_zero, add_zero] at hsum
        rw [hsum]
        exact ht.taken_eq
      order_held := fun hp k' node hk' =>
        ht.order_held hp k' node (PayloadTransport.acquired_of_set rfl hk').2 }

lemma Valid.sendCancel (h : w.Valid) (hi : w.transports[i]? = some t)
    (hk : w.payloadTokens[k]? = some ⟨i, phase⟩) (hphase : phase.reserved = 1)
    (hheld : phase.held = 0) : (w.sendCancel k i t).2.Valid := by
  refine h.freeToken hk ?_ (h.unreserve hi hk hphase hheld)
  rintro rfl
  exact nomatch hphase

/-- A token that goes from one phase of sending to another. -/
lemma Valid.keepReservation (h : w.Valid) (hi : w.transports[i]? = some t)
    (hk : w.payloadTokens[k]? = some ⟨i, phase⟩) (hheld : phase.held = 0) (phase' : Phase P)
    (hreserved : phase'.reserved = phase.reserved) (hheld' : phase'.held = 0) :
    t.Valid w.memory (w.payloadTokens.set k ⟨i, phase'⟩) i := by
  have ht := h.transports i t hi
  exact
    { ht with
      reservations_eq := by
        have hsum := reserved_set hk phase'
        have := ht.reservations_eq
        omega
      taken_eq := by
        have hsum := held_set hk phase'
        rw [hheld, hheld', add_zero, add_zero] at hsum
        rw [hsum]
        exact ht.taken_eq
      order_held := fun hp k' node hk' =>
        ht.order_held hp k' node (PayloadTransport.acquired_of_set hheld' hk').2 }

lemma Valid.sendCommitSelect (h : w.Valid) (hi : w.transports[i]? = some t) {source : P}
    (hk : w.payloadTokens[k]? = some ⟨i, .prepared source⟩) (memory : Bool) :
    (w.sendCommitSelect k i t source memory).2.Valid := by
  rw [World.sendCommitSelect]
  split_ifs
  · have hvalid := h.setPhase hk (by simp) (by simp) (h.keepReservation hi hk rfl .refused rfl rfl)
    rwa [setTransport_self hi] at hvalid
  · exact h
  · have hvalid := h.setPhase hk (by simp) (by simp)
      (h.keepReservation hi hk rfl (.moving source) rfl rfl)
    rwa [setTransport_self hi] at hvalid

lemma Valid.sendCommitAppend (h : w.Valid) (hi : w.transports[i]? = some t) {source : P}
    (hk : w.payloadTokens[k]? = some ⟨i, .moving source⟩) :
    (w.sendCommitAppend k i t source).2.Valid := by
  have ht := h.transports i t hi
  have hfree := h.unreserve hi hk rfl rfl
  -- The token is active, so no `close` can have detached the queue.
  obtain ⟨hcallbacks, hquiesced, hdiscarded, hdetached⟩ :=
    ht.not_draining (h.active_pos hk nofun)
  have hreserved := reserved_set hk .freed
  have hreservations := ht.reservations_eq
  have hbounded := ht.bounded
  rw [Phase.reserved, Phase.reserved] at hreserved
  refine h.freeToken hk nofun ?_
  exact
    { size_eq := by
        show t.size + 1 = (t.queue ++ [source]).length
        rw [ht.size_eq, List.length_append, List.length_singleton]
      reservations_eq := hfree.reservations_eq
      bounded := by
        show t.size + 1 + (t.reservations - 1) ≤ t.capacity
        omega
      committed_eq := by
        show t.committed ++ [source] = t.taken ++ t.discarded ++ t.detached ++ (t.queue ++ [source])
        rw [ht.committed_eq, List.append_assoc _ t.queue]
      taken_eq := hfree.taken_eq
      closing := ht.closing
      locked := ht.locked
      draining := by
        rintro (hc | hq | hd)
        · exact absurd hcallbacks hc
        · exact absurd hq (by rw [hquiesced]; exact Bool.false_ne_true)
        · exact absurd hdiscarded hd
      detached_nil := ht.detached_nil
      freed := ht.freed
      order := ht.order
      order_held := hfree.order_held }

/-! ### Receiving -/

/-- The failed ways out of `receive_acquire` put the head back where it was. -/
lemma relink_eq (h : w.Valid) (hi : w.transports[i]? = some t) {node : P} {rest : List P}
    (hqueue : t.queue = node :: rest) :
    w.setTransport i { t with queue := node :: rest, size := t.size - 1 + 1 } = w := by
  have hsize := (h.transports i t hi).size_eq
  rw [hqueue, List.length_cons] at hsize
  have heq : ({ t with queue := node :: rest, size := t.size - 1 + 1 } : PayloadTransport P) = t := by
    obtain ⟨⟩ := t
    simp only at hqueue hsize
    simp [hqueue, hsize]
  rw [heq, setTransport_self hi]

lemma Valid.receiveAcquire (h : w.Valid) (hi : w.transports[i]? = some t)
    (memory recordMemory : Bool) : (w.receiveAcquire i t memory recordMemory).2.Valid := by
  unfold World.receiveAcquire
  split
  next => exact h
  next node rest hqueue =>
  split_ifs
  · show (w.setTransport i { t with queue := node :: rest, size := t.size - 1 + 1 }).Valid
    rw [relink_eq h hi hqueue]
    exact h
  split
  next m hresult =>
    obtain ⟨rfl, hdigest, hopen, hpolicy⟩ := h.memory.acquire_ok h.payload_fresh hresult
    have hadvances := Memory.advances_issue hopen w.memory.lease.descriptorDigest
      (.payload w.payloadTokens.length)
    have ht := h.transports i t hi
    obtain ⟨hclosed, hcallbacks, hquiesced, hdiscarded, hdetached⟩ :=
      ht.not_draining_of_open hopen
    have hsize := ht.size_eq
    have hbounded := ht.bounded
    refine h.addToken hi (h.memory.issue h.payload_fresh hpolicy rfl) hadvances rfl ?_ ?_ nofun ?_
    · intro a ha
      rw [Memory.issue_tokens, if_neg ha]
    · rw [Memory.issue_tokens, if_pos rfl]
      rfl
    · exact
        { size_eq := by
            show t.size - 1 = rest.length
            rw [hsize, hqueue, List.length_cons, Nat.add_sub_cancel]
          reservations_eq := by
            rw [reserved_append, ← ht.reservations_eq, PayloadToken.reserves, if_pos rfl]
            rfl
          bounded := by
            show t.size - 1 + t.reservations ≤ t.capacity
            omega
          committed_eq := by
            show t.committed = t.taken ++ [node] ++ t.discarded ++ t.detached ++ rest
            rw [ht.committed_eq, hdiscarded, hdetached, hqueue]
            simp
          taken_eq := by
            rw [held_append, PayloadToken.holds, if_pos rfl]
            show ((t.taken ++ [node] : List P) : Multiset P) = _ + (_ + {node})
            rw [← Multiset.coe_add, ht.taken_eq, ← add_assoc]
            rfl
          closing := fun hc => absurd hc (by
            show ¬t.closed = true
            rw [hclosed]
            exact Bool.false_ne_true)
          locked := ht.locked
          draining := by
            rintro (hc | hq | hd)
            · exact absurd hcallbacks hc
            · exact absurd hq (by rw [hquiesced]; exact Bool.false_ne_true)
            · exact absurd hdiscarded hd
          detached_nil := ht.detached_nil
          freed := ht.freed
          order := fun hp => (ht.order hp).trans (List.sublist_append_left _ _)
          order_held := by
            intro hp k node' hk
            rw [List.getElem?_append] at hk
            split_ifs at hk with hlt
            · -- An exclusive lease that is available has no other token.
              have hpos := h.active_pos hk nofun
              have hzero := h.memory.available (hpolicy hp)
              omega
            · rw [List.getElem?_singleton] at hk
              split_ifs at hk
              rw [Option.some.injEq, PayloadToken.mk.injEq, Phase.acquired.injEq] at hk
              rw [← hk.2]
              exact ⟨t.taken, rfl, ht.order hp⟩ }
  next status m hstatus hresult =>
    rw [h.memory.acquire_failed h.payload_fresh hresult hstatus]
    show (w.setTransport i { t with queue := node :: rest, size := t.size - 1 + 1 }).Valid
    rw [relink_eq h hi hqueue]
    exact h

/-- A payload that was taken is handed over. -/
lemma Valid.handOver (h : w.Valid) (hi : w.transports[i]? = some t) {node : P}
    (hk : w.payloadTokens[k]? = some ⟨i, .acquired node⟩) (hreserved : phase'.reserved = 0)
    (hheld : phase'.held = 0) :
    ({ t with received := t.received ++ [node] } : PayloadTransport P).Valid w.memory
      (w.payloadTokens.set k ⟨i, phase'⟩) i := by
  have ht := h.transports i t hi
  exact
    { ht with
      reservations_eq := by
        have hsum := reserved_set hk phase'
        rw [hreserved, Phase.reserved, add_zero, add_zero] at hsum
        rw [hsum]
        exact ht.reservations_eq
      taken_eq := by
        have hsum := held_set hk phase'
        rw [hheld, Phase.held, add_zero] at hsum
        show (t.taken : Multiset P) = ((t.received ++ [node] : List P) : Multiset P) + _ + _
        rw [ht.taken_eq, ← hsum, ← Multiset.coe_add]
        show _ = (t.received : Multiset P) + {node} + t.cancelled + _
        ac_rfl
      order := by
        intro hp
        obtain ⟨before, htaken, hsub⟩ := ht.order_held hp k node hk
        show (t.received ++ [node]).Sublist t.taken
        rw [htaken]
        exact hsub.append (List.Sublist.refl _)
      order_held := by
        intro hp k' node' hk'
        obtain ⟨hne, hk'⟩ := PayloadTransport.acquired_of_set hheld hk'
        exact absurd (h.held_unique hp hk nofun hk' nofun) hne }

section

variable {node : P} (h : w.Valid) (hi : w.transports[i]? = some t)
  (hk : w.payloadTokens[k]? = some ⟨i, .acquired node⟩)

include h hi hk

lemma Valid.receiveCommit (destinationSize : ℕ) :
    (w.receiveCommit k i t node destinationSize).2.Valid := by
  rw [World.receiveCommit]
  split_ifs
  · exact h
  · exact h
  · exact h.freeToken hk nofun (h.handOver hi hk rfl rfl)

lemma Valid.receiveTakeMove (memory retained : Bool) :
    (w.receiveTakeMove k i t node memory retained).2.Valid := by
  rw [World.receiveTakeMove]
  split_ifs
  · exact h
  · exact h
  · exact h
  · exact h.setPhase hk nofun nofun (h.handOver hi hk rfl rfl)

lemma Valid.receiveCancelDrop : (w.receiveCancelDrop k i t node).2.Valid := by
  have ht := h.transports i t hi
  refine h.setPhase hk nofun nofun ?_
  exact
    { ht with
      reservations_eq := by
        have hsum := reserved_set hk .cancelled
        rw [Phase.reserved, Phase.reserved, add_zero, add_zero] at hsum
        rw [hsum]
        exact ht.reservations_eq
      taken_eq := by
        have hsum := held_set hk .cancelled
        rw [Phase.held, Phase.held, add_zero] at hsum
        show (t.taken : Multiset P) = _ + ((t.cancelled ++ [node] : List P) : Multiset P) + _
        rw [ht.taken_eq, ← hsum, ← Multiset.coe_add]
        show _ = (t.received : Multiset P) + (t.cancelled + {node}) + _
        ac_rfl
      order_held := fun hp k' node' hk' =>
        ht.order_held hp k' node' (PayloadTransport.acquired_of_set rfl hk').2 }

end

lemma Valid.receiveRelease (h : w.Valid) (hi : w.transports[i]? = some t)
    (hk : w.payloadTokens[k]? = some ⟨i, phase⟩) (hphase : phase ≠ .freed)
    (hreserved : phase.reserved = 0) (hheld : phase.held = 0) :
    (w.receiveRelease k i).2.Valid := by
  have hvalid := h.freeToken hk hphase
    (h.keepReservation hi hk hheld .freed hreserved.symm rfl)
  rwa [setTransport_self hi] at hvalid

end World

/-! ## Transports as a whole -/

namespace World

variable {w : World P} {i : ℕ} {t : PayloadTransport P}

/-- A transport that exists, with a change of the lease that no token takes part in. -/
lemma Valid.moveTransport (h : w.Valid) {m' : Memory Holder} (hm : m'.Valid)
    (hadvances : w.memory.Advances m') (htokens : m'.tokens = w.memory.tokens)
    (hacquired : m'.acquired = w.memory.acquired) {t' : PayloadTransport P}
    (ht : t'.Valid m' w.payloadTokens i) :
    ({ w.setTransport i t' with memory := m' } : World P).Valid :=
  (h.quiet hm hadvances htokens hacquired).setTransport ht

lemma Valid.setTransports (h : w.Valid) (n : ℕ) :
    ({ w with memory := w.memory.setTransports n } : World P).Valid :=
  h.quiet { h.memory with } (Memory.advances_setTransports _ n) rfl rfl

lemma Valid.countTransport (h : w.Valid) (n : ℕ) {t' : PayloadTransport P}
    (ht : t'.Valid (w.memory.setTransports n) w.payloadTokens i) :
    ({ w.setTransport i t' with memory := w.memory.setTransports n } : World P).Valid :=
  (h.setTransports n).setTransport ht

/-- A new transport is valid over tokens of which none is its own. -/
lemma Valid.transportCreate (h : w.Valid) (digest : Digest) (capacity payloadSize : ℕ)
    (typed memory retained : Bool) :
    (w.transportCreate digest capacity payloadSize typed memory retained).2.Valid := by
  rw [World.transportCreate]
  split_ifs
  · exact h
  · exact h
  · exact h
  · exact h
  · exact h
  have h' := h.setTransports (w.memory.lease.transports + 1)
  refine { h' with transport_lt := fun token htoken => ?_, transports := ?_ }
  · rw [List.length_append]
    exact Nat.lt_add_right _ (h.transport_lt token htoken)
  intro j t hj
  rw [List.getElem?_append] at hj
  split_ifs at hj with hlt
  · exact h'.transports j t hj
  · rw [List.getElem?_singleton] at hj
    split_ifs at hj with hzero
    rw [Option.some.injEq] at hj
    subst hj
    have hfresh : ∀ token ∈ w.payloadTokens, token.transport ≠ j := by
      intro token htoken
      have := h.transport_lt token htoken
      omega
    exact
      { size_eq := rfl
        reservations_eq := by
          rw [reserved, List.sum_eq_zero]
          intro n hn
          obtain ⟨token, htoken, rfl⟩ := List.mem_map.1 hn
          rw [PayloadToken.reserves, if_neg (hfresh token htoken)]
        bounded := Nat.zero_le _
        committed_eq := rfl
        taken_eq := by
          rw [held, List.sum_eq_zero]
          · rfl
          intro n hn
          obtain ⟨token, htoken, rfl⟩ := List.mem_map.1 hn
          rw [PayloadToken.holds, if_neg (hfresh token htoken)]
        closing := nofun
        locked := nofun
        draining := by
          rintro (hc | hq | hd)
          · exact absurd rfl hc
          · exact nomatch hq
          · exact absurd rfl hd
        detached_nil := fun _ => rfl
        freed := nofun
        order := fun _ => List.Sublist.refl _
        order_held := fun _ k node hk =>
          absurd rfl (hfresh _ (List.mem_of_getElem? hk)) }

lemma Valid.closeBegin (h : w.Valid) (hi : w.transports[i]? = some t) :
    (w.closeBegin i t).2.Valid := by
  have ht := h.transports i t hi
  rw [World.closeBegin]
  split_ifs
  · exact h
  · exact h.setTransport { ht with locked := fun _ => by assumption }
  · refine h.moveTransport h.memory.beginClose (Memory.advances_beginClose _)
      (Memory.beginClose_tokens _).1 (Memory.beginClose_tokens _).2.1 ?_
    exact { ht.advance (Memory.advances_beginClose _) with
      closing := fun _ => Memory.isClosing_beginClose _
      locked := fun _ => rfl }

/-- The queue is detached only when no token is active, and none can come after. -/
lemma Valid.closeDetach (h : w.Valid) (hi : w.transports[i]? = some t) (hlocked : t.locked = true) :
    (w.closeDetach i t).2.Valid := by
  have ht := h.transports i t hi
  have hclosed := ht.locked hlocked
  rw [World.closeDetach]
  split_ifs with hready
  · exact h.setTransport { ht with locked := nofun }
  rw [not_or, not_not, not_not] at hready
  obtain ⟨hcallbacks, hactive⟩ := hready
  have hdetached := ht.detached_nil (.inl hcallbacks)
  have hbounded := ht.bounded
  refine h.setTransport ?_
  exact
    { ht with
      size_eq := rfl
      bounded := by
        show 0 + t.reservations ≤ t.capacity
        omega
      committed_eq := by
        show t.committed = t.taken ++ t.discarded ++ t.queue ++ []
        rw [ht.committed_eq, hdetached, List.append_nil, List.append_nil]
      locked := nofun
      draining := fun _ => ⟨ht.closing hclosed, hactive, rfl⟩
      detached_nil := by
        rintro (hc | hq)
        · exact absurd hc (Nat.succ_ne_zero _)
        · exact (ht.draining (.inr (.inl hq))).2.2 }

lemma Valid.closeDropNode (h : w.Valid) (hi : w.transports[i]? = some t) {node : P}
    {rest : List P} (hdetached : t.detached = node :: rest) :
    (w.closeDropNode i t node rest).2.Valid := by
  have ht := h.transports i t hi
  have hcallbacks : t.callbacks ≠ 0 := fun hc => by
    have := ht.detached_nil (.inl hc)
    rw [hdetached] at this
    exact nomatch this
  refine h.setTransport ?_
  exact
    { ht with
      committed_eq := by
        show t.committed = t.taken ++ (t.discarded ++ [node]) ++ rest ++ t.queue
        rw [ht.committed_eq, hdetached]
        simp
      draining := fun _ => ht.draining (.inl hcallbacks)
      detached_nil := fun hnil => by
        have := ht.detached_nil hnil
        rw [hdetached] at this
        exact nomatch this }

lemma Valid.closeFinish (h : w.Valid) (hi : w.transports[i]? = some t)
    (hcallbacks : t.callbacks ≠ 0) (hdetached : t.detached = []) :
    (w.closeFinish i t).2.Valid := by
  have ht := (h.transports i t hi).advance (Memory.advances_quiesce _)
  refine h.moveTransport h.memory.quiesce (Memory.advances_quiesce _)
    (Memory.quiesce_tokens _).1 (Memory.quiesce_tokens _).2.1 ?_
  exact
    { ht with
      draining := fun _ => ht.draining (.inl hcallbacks)
      detached_nil := fun _ => hdetached
      freed := fun hf => by
        show (if _ then true else t.quiesced) = true
        split_ifs
        · rfl
        · exact ht.freed hf }

lemma Valid.transportDestroy (h : w.Valid) (hi : w.transports[i]? = some t) :
    (w.transportDestroy i t).2.Valid := by
  have ht := h.transports i t hi
  rw [World.transportDestroy]
  split_ifs with hbusy
  · exact h
  rw [not_or, Bool.not_eq_false] at hbusy
  have ht' := ht.advance (Memory.advances_setTransports _ (w.memory.lease.transports + (2 ^ 32 - 1)))
  exact h.countTransport _ { ht' with freed := fun _ => hbusy.1 }

end World

/-! ## Every action -/

namespace World

variable {w w' : World P} {action : Action P}

lemma Valid.answer (h : w.Valid) {result : Status × World P}
    (hanswer : answer w action = some result) : result.2.Valid := by
  cases action with
  | acquire digest memory =>
    rw [Lease.answer, Option.some.injEq] at hanswer
    exact hanswer ▸ h.acquire digest memory
  | release i =>
    rw [Lease.answer] at hanswer
    split_ifs at hanswer
    rw [Option.some.injEq] at hanswer
    exact hanswer ▸ h.releaseRaw i
  | beginClose =>
    rw [Lease.answer, Option.some.injEq] at hanswer
    exact hanswer ▸ h.beginClose
  | quiesce =>
    rw [Lease.answer, Option.some.injEq] at hanswer
    exact hanswer ▸ h.quiesce
  | leaseDestroy =>
    rw [Lease.answer, Option.some.injEq] at hanswer
    exact hanswer ▸ h.leaseDestroy
  | operationBegin digest memory recordMemory =>
    rw [Lease.answer, Option.some.injEq] at hanswer
    exact hanswer ▸ h.operationBegin digest memory recordMemory
  | operationComplete i terminalState =>
    obtain ⟨op, hop, rfl⟩ := of_operation hanswer
    exact h.operationComplete hop terminalState
  | providerEnter i =>
    obtain ⟨op, hop, rfl⟩ := of_operation hanswer
    exact h.providerEnter hop
  | providerLeave i =>
    obtain ⟨op, hop, rfl⟩ := of_operation hanswer
    exact h.providerLeave hop
  | requestCancel i =>
    obtain ⟨op, hop, rfl⟩ := of_operation hanswer
    exact h.setOperation hop rfl
  | operationDestroy i =>
    obtain ⟨op, hop, rfl⟩ := of_operation hanswer
    exact h.operationDestroy hop
  | transportCreate digest capacity payloadSize typed memory retained =>
    rw [Lease.answer, Option.some.injEq] at hanswer
    exact hanswer ▸ h.transportCreate digest capacity payloadSize typed memory retained
  | sendPrepare i source sourceSize memory recordMemory =>
    obtain ⟨t, hi, rfl⟩ := of_lock hanswer
    exact h.sendPrepare hi source sourceSize memory recordMemory
  | sendCommitSelect k memory =>
    rw [Lease.answer] at hanswer
    split at hanswer
    next i source hk =>
      obtain ⟨t, hi, rfl⟩ := of_lock hanswer
      exact h.sendCommitSelect hi hk memory
    next => exact nomatch hanswer
  | sendCommitAppend k =>
    rw [Lease.answer] at hanswer
    split at hanswer
    next i source hk =>
      obtain ⟨t, hi, rfl⟩ := of_lock hanswer
      exact h.sendCommitAppend hi hk
    next => exact nomatch hanswer
  | sendCancel k =>
    rw [Lease.answer] at hanswer
    split at hanswer
    next i source hk =>
      obtain ⟨t, hi, rfl⟩ := of_lock hanswer
      exact h.sendCancel hi hk rfl rfl
    next i hk =>
      obtain ⟨t, hi, rfl⟩ := of_lock hanswer
      exact h.sendCancel hi hk rfl rfl
    next => exact nomatch hanswer
  | receiveAcquire i memory recordMemory =>
    obtain ⟨t, hi, rfl⟩ := of_lock hanswer
    exact h.receiveAcquire hi memory recordMemory
  | receiveCommit k destinationSize =>
    rw [Lease.answer] at hanswer
    split at hanswer
    next i node hk =>
      obtain ⟨t, hi, rfl⟩ := of_lock hanswer
      exact h.receiveCommit hi hk destinationSize
    next => exact nomatch hanswer
  | receiveCancelDrop k =>
    rw [Lease.answer] at hanswer
    split at hanswer
    next i node hk =>
      obtain ⟨t, hi, rfl⟩ := of_transport hanswer
      exact h.receiveCancelDrop hi hk
    next => exact nomatch hanswer
  | receiveTakeMove k memory retained =>
    rw [Lease.answer] at hanswer
    split at hanswer
    next i node hk =>
      obtain ⟨t, hi, rfl⟩ := of_transport hanswer
      exact h.receiveTakeMove hi hk memory retained
    next => exact nomatch hanswer
  | receiveRelease k =>
    rw [Lease.answer] at hanswer
    split at hanswer
    next i hk =>
      obtain ⟨t, hi, rfl⟩ := of_lock hanswer
      exact h.receiveRelease hi hk nofun rfl rfl
    next i hk =>
      obtain ⟨t, hi, rfl⟩ := of_lock hanswer
      exact h.receiveRelease hi hk nofun rfl rfl
    next => exact nomatch hanswer
  | closeBegin i =>
    obtain ⟨t, hi, rfl⟩ := of_lock hanswer
    exact h.closeBegin hi
  | closeDetach i =>
    obtain ⟨t, ht, rfl⟩ := Option.map_eq_some_iff.1 hanswer
    obtain ⟨ht, hlocked⟩ := Option.filter_eq_some_iff.1 ht
    exact h.closeDetach (transport?_eq_some ht).1 hlocked
  | closeDropNode i =>
    obtain ⟨t, ht, hresult⟩ := Option.bind_eq_some_iff.1 hanswer
    split at hresult
    next => exact nomatch hresult
    next node rest hdetached =>
      rw [Option.some.injEq] at hresult
      exact hresult ▸ h.closeDropNode (transport?_eq_some ht).1 hdetached
  | closeFinish i =>
    obtain ⟨t, ht, rfl⟩ := Option.map_eq_some_iff.1 hanswer
    obtain ⟨ht, hdone⟩ := Option.filter_eq_some_iff.1 ht
    rw [Bool.and_eq_true, decide_eq_true_iff, List.isEmpty_iff] at hdone
    exact h.closeFinish (lock?_eq_some ht).1 hdone.1 hdone.2
  | transportDestroy i =>
    obtain ⟨t, hi, rfl⟩ := of_transport hanswer
    exact h.transportDestroy hi

/-- The answer that goes with a step. -/
lemma answer_of_step (h : step w action = some w') :
    ∃ status, answer w action = some (status, w') := by
  rw [step] at h
  split_ifs at h
  obtain ⟨⟨status, _⟩, hanswer, rfl⟩ := Option.map_eq_some_iff.1 h
  exact ⟨status, hanswer⟩

/-- **Every action keeps the invariant.** -/
theorem Valid.step (h : w.Valid) (hstep : step w action = some w') : w'.Valid := by
  obtain ⟨status, hanswer⟩ := answer_of_step hstep
  exact h.answer hanswer

end World

end Lease

end Chtholly
