import Chtholly.ForeignProtocol.RoundTrip

/-!
# When encoding and decoding are inverse

A protocol that is accepted comes back from its encoding when its lists and names are within the limits
of the decoder, which are not those of the verification.  Bytes that are accepted come back from the
protocol when no word of an enumeration was cut off.

## Main definitions

* `ForeignProtocol.Encodable` — the protocols whose encoding is within the limits.
* `ForeignProtocol.Uncut` — the bytes in which no word is cut off.

## Main results

* `ForeignProtocol.decode_encode_iff`, `ForeignProtocol.encode_decode_iff` — the two directions.
* `ForeignProtocol.codec_iff` — both together.
-/

set_option autoImplicit false

namespace Chtholly

namespace ForeignProtocol

/-- The limits of the decoder that the verification does not imply. -/
structure Encodable (protocol : ForeignResourceProtocol) : Prop where
  completionCleanupPath : protocol.completionCleanupPath.length ≤ 8
  wakeCleanupPath : protocol.wakeCleanupPath.length ≤ 8
  parameters : ∀ role ∈ protocol.roles, role.parameters.length ≤ 64
  names : ∀ role ∈ protocol.roles, ∀ parameter ∈ role.parameters,
    parameter.name.length ≤ maxSingleStringBytes
  text : (protocol.roles.map fun role =>
    (role.parameters.map fun parameter => parameter.name.length).sum).sum ≤ maxStringBytes

/-- The bytes spell words within the limits, of which those of the enumerations are bytes. -/
def Uncut (bytes : Bytes) : Prop :=
  ∃ wide : WireProtocol, wide.Within ∧ wide.bytes = bytes ∧ wide.Lossless

/-! ## What the verification implies -/

/-- The kinds that are taken, as the roles come in the order of their kinds. -/
def takenKinds (previous : Option RoleKind) : ℕ := previous.elim 0 fun kind => kind.toNat + 1

lemma length_of_verifyRoles {typeCount : UInt32} {previous : Option RoleKind}
    {roles : List ForeignResourceRole} (h : verifyRoles typeCount previous roles = .ok ())
    (hprevious : takenKinds previous ≤ 9) : roles.length + takenKinds previous ≤ 9 := by
  induction roles generalizing previous with
  | nil => exact (Nat.zero_add _).trans_le hprevious
  | cons role roles ih =>
    rw [verifyRoles] at h
    split at h
    case isTrue => cases h
    case isFalse hkind =>
      split at h
      case isTrue => cases h
      case isFalse =>
        split at h
        case h_1 => cases h
        case h_2 =>
          rw [not_or, not_or] at hkind
          obtain ⟨hcount, -, hbefore⟩ := hkind
          have hcount : role.kind.toNat < 9 := UInt8.lt_iff_toNat_lt.1 (UInt8.not_le.1 hcount)
          have hrest := ih h hcount
          have hlower : takenKinds previous ≤ role.kind.toNat := by
            cases previous with
            | none => exact Nat.zero_le _
            | some kind =>
              simp only [Option.any_some, decide_eq_true_eq] at hbefore
              exact UInt8.lt_iff_toNat_lt.1 (UInt8.not_le.1 hbefore)
          have hnext : takenKinds (some role.kind) = role.kind.toNat + 1 := rfl
          rw [List.length_cons]
          omega

namespace ForeignResourceProtocol

variable {protocol : ForeignResourceProtocol} {typeCount : UInt32}

lemma verify_eq_ok (h : protocol.verify typeCount = .ok ()) :
    verifyRoles typeCount none protocol.roles = .ok () ∧ protocol.verifyClosure = .ok () := by
  unfold verify at h
  split at h
  case isTrue => cases h
  case isFalse =>
    split at h
    case isTrue => cases h
    case isFalse =>
      split at h
      case h_1 => cases h
      case h_2 hroles => exact ⟨hroles, h⟩

lemma cleanup_of_verifyClosure (h : protocol.verifyClosure = .ok ()) :
    protocol.ordinaryCleanup = true ∨ protocol.asynchronousCleanup = true := by
  by_contra hcleanup
  rw [not_or, Bool.not_eq_true, Bool.not_eq_true] at hcleanup
  unfold verifyClosure at h
  rw [if_pos hcleanup] at h
  split at h
  · cases h
  · split at h
    · cases h
    · split at h <;> cases h

lemma length_cleanupPath_of_verify (h : protocol.verify typeCount = .ok ()) :
    protocol.cleanupPath.length ≤ 2 := by
  obtain hcleanup | hcleanup := cleanup_of_verifyClosure (verify_eq_ok h).2
  · simp only [ordinaryCleanup, Bool.or_eq_true, Bool.and_eq_true, beq_iff_eq] at hcleanup
    obtain (hpath | hpath) | ⟨-, hpath⟩ := hcleanup <;> rw [hpath] <;> exact Nat.le_succ 1
  · simp only [asynchronousCleanup, Bool.and_eq_true, beq_iff_eq] at hcleanup
    rw [hcleanup.2]
    rfl

end ForeignResourceProtocol

/-- For accepted protocols, the words of the encoding are within the limits when the protocol is. -/
lemma within_widen_iff {protocol : ForeignResourceProtocol} {typeCount : UInt32}
    (h : protocol.verify typeCount = .ok ()) : protocol.widen.Within ↔ Encodable protocol := by
  have hcleanup := ForeignResourceProtocol.length_cleanupPath_of_verify h
  have hroles := length_of_verifyRoles (ForeignResourceProtocol.verify_eq_ok h).1 (Nat.zero_le _)
  have htext : protocol.widen.text = (protocol.roles.map fun role =>
      (role.parameters.map fun parameter => parameter.name.length).sum).sum := by
    simp only [WireProtocol.text, ForeignResourceProtocol.widen, List.map_map]
    congr 1
    refine List.map_congr_left fun role _ => ?_
    simp [WireRole.text, ForeignResourceRole.widen, ForeignResourceParameterBinding.widen,
      Function.comp_def]
  constructor
  · intro hwithin
    refine ⟨?_, ?_, fun role hrole => ?_, fun role hrole parameter hparameter => ?_, ?_⟩
    · simpa [ForeignResourceProtocol.widen] using hwithin.completionCleanupPath
    · simpa [ForeignResourceProtocol.widen] using hwithin.wakeCleanupPath
    · have hrole := hwithin.roles role.widen (List.mem_map_of_mem hrole)
      simpa [ForeignResourceRole.widen] using hrole.parameters
    · have hrole := hwithin.roles role.widen (List.mem_map_of_mem hrole)
      exact hrole.names parameter.widen (List.mem_map_of_mem hparameter)
    · exact htext ▸ hwithin.text
  · intro hencodable
    refine ⟨?_, ?_, ?_, ?_, ?_, htext ▸ hencodable.text⟩
    · simp only [ForeignResourceProtocol.widen, List.length_map]
      omega
    · simpa [ForeignResourceProtocol.widen] using hencodable.completionCleanupPath
    · simpa [ForeignResourceProtocol.widen] using hencodable.wakeCleanupPath
    · simp only [ForeignResourceProtocol.widen, List.length_map]
      omega
    · show ∀ role ∈ protocol.roles.map ForeignResourceRole.widen, role.Within
      rw [List.forall_mem_map]
      intro role hrole
      constructor
      · simpa [ForeignResourceRole.widen] using hencodable.parameters role hrole
      · show ∀ parameter ∈ role.parameters.map ForeignResourceParameterBinding.widen,
          parameter.name.length ≤ maxSingleStringBytes
        rw [List.forall_mem_map]
        exact hencodable.names role hrole

/-! ## The two directions -/

section Inverse

variable {protocol : ForeignResourceProtocol} {bytes : Bytes} {typeCount : UInt32}

/-- What is accepted was read and verified. -/
lemma decode_eq_ok (h : decodeForeignResourceProtocol bytes typeCount = .ok protocol) :
    protocol.verify typeCount = .ok () ∧
      ∃ context, readProtocol { rest := bytes } = .ok (protocol, context) ∧ context.rest = [] := by
  unfold decodeForeignResourceProtocol at h
  split at h
  case isTrue => cases h
  case isFalse =>
    split at h
    case h_1 => cases h
    case h_2 read context hread =>
      split at h
      case isTrue => cases h
      case isFalse hrest =>
        split at h
        case h_1 => cases h
        case h_2 hverify =>
          cases h
          exact ⟨hverify, context, hread, not_not.1 hrest⟩

/-- The narrowed form of words within the limits is within them. -/
lemma WireProtocol.Within.encodable {wide : WireProtocol} (h : wide.Within) :
    Encodable wide.narrow := by
  have htext : (fun role : WireRole => (role.parameters.map fun parameter =>
      parameter.name.length).sum) = WireRole.text := rfl
  have hsum : (wide.roles.map WireRole.text).sum ≤ maxStringBytes := h.text
  refine ⟨?_, ?_, ?_, ?_, ?_⟩
  · simpa [WireProtocol.narrow] using h.completionCleanupPath
  · simpa [WireProtocol.narrow] using h.wakeCleanupPath
  · show ∀ role ∈ wide.roles.map WireRole.narrow, role.parameters.length ≤ 64
    rw [List.forall_mem_map]
    intro role hrole
    simpa [WireRole.narrow] using (h.roles role hrole).parameters
  · show ∀ role ∈ wide.roles.map WireRole.narrow, ∀ parameter ∈ role.parameters,
      parameter.name.length ≤ maxSingleStringBytes
    rw [List.forall_mem_map]
    intro role hrole
    show ∀ parameter ∈ role.parameters.map WireParameter.narrow,
      parameter.name.length ≤ maxSingleStringBytes
    rw [List.forall_mem_map]
    exact (h.roles role hrole).names
  · simpa [WireProtocol.narrow, WireRole.narrow, WireParameter.narrow, Function.comp_def, htext]
      using hsum

/-- Words within the limits are decoded when their narrowed form is accepted. -/
lemma decode_bytes {wide : WireProtocol} (hwithin : wide.Within)
    (hverify : wide.narrow.verify typeCount = .ok ()) :
    decodeForeignResourceProtocol wide.bytes typeCount = .ok wide.narrow := by
  obtain ⟨nodes, text, hread⟩ := readProtocol_append hwithin
  rw [decodeForeignResourceProtocol, if_neg hwithin.length_bytes_le.not_gt, hread]
  simp only [ne_eq, not_true_eq_false, if_false, hverify]

/-- An accepted protocol comes back from its encoding when it is within the decoder's limits. -/
theorem decode_encode_iff (h : protocol.verify typeCount = .ok ()) :
    decodeForeignResourceProtocol (encodeForeignResourceProtocol protocol) typeCount =
      .ok protocol ↔ Encodable protocol := by
  constructor
  · intro hdecode
    obtain ⟨-, context, hread, -⟩ := decode_eq_ok hdecode
    obtain ⟨wide, rfl, hwithin, -⟩ := readProtocol_eq_ok hread
    exact hwithin.encodable
  · intro hencodable
    have hdecode := @decode_bytes typeCount protocol.widen ((within_widen_iff h).2 hencodable)
    rw [narrow_widen, ← encode_eq_bytes] at hdecode
    exact hdecode h

/-- Accepted bytes come back from the protocol when no word was cut off. -/
theorem encode_decode_iff (h : decodeForeignResourceProtocol bytes typeCount = .ok protocol) :
    encodeForeignResourceProtocol protocol = bytes ↔ Uncut bytes := by
  obtain ⟨hverify, context, hread, -⟩ := decode_eq_ok h
  rw [encode_eq_bytes]
  constructor
  · intro hencode
    refine ⟨protocol.widen, ?_, hencode, lossless_widen protocol⟩
    rw [within_widen_iff hverify, ← decode_encode_iff hverify, encode_eq_bytes, hencode]
    exact h
  · rintro ⟨wide, hwithin, rfl, hlossless⟩
    -- these words are read, so the protocol is their narrowed form
    obtain ⟨nodes, text, hread'⟩ := readProtocol_append hwithin
    obtain ⟨rfl, -⟩ := Prod.mk.inj (Except.ok.inj (hread.symm.trans hread'))
    rw [hlossless.widen_narrow]

/-- Encoding and decoding are inverse for the protocols within the decoder's limits and the bytes in
which no word is cut off; what is decoded is always accepted. -/
theorem codec_iff (typeCount : UInt32) :
    (∀ protocol : ForeignResourceProtocol, protocol.verify typeCount = .ok () →
      (decodeForeignResourceProtocol (encodeForeignResourceProtocol protocol) typeCount =
        .ok protocol ↔ Encodable protocol)) ∧
    ∀ (bytes : Bytes) (protocol : ForeignResourceProtocol),
      decodeForeignResourceProtocol bytes typeCount = .ok protocol →
      (protocol.verify typeCount = .ok () ∧
        (encodeForeignResourceProtocol protocol = bytes ↔ Uncut bytes)) :=
  ⟨fun _ => decode_encode_iff, fun _ _ h => ⟨(decode_eq_ok h).1, encode_decode_iff h⟩⟩

end Inverse

/-! ## An owned handle -/

/-- A handle that is acquired and closed. -/
def handleProtocol : ForeignResourceProtocol where
  resourceTypeIndex := 0
  cleanupPath := [RoleKind.closeQuiescent]
  roles :=
    [{ kind := RoleKind.acquireOwned, callableTypeIndex := 1 },
      { kind := RoleKind.closeQuiescent, callableTypeIndex := 2, quiescence := Quiescence.quiescent
        parameters := [{ kind := ParameterKind.resource, parameterIndex := 0 }] }]

theorem codec_iff_handle :
    decodeForeignResourceProtocol (encodeForeignResourceProtocol handleProtocol) 3 =
      .ok handleProtocol := by
  have hverify : handleProtocol.verify 3 = .ok () := by decide
  refine ((codec_iff 3).1 handleProtocol hverify).2 ⟨?_, ?_, ?_, ?_, ?_⟩ <;> decide

/-- The handle with `count` bound parameters of the function that acquires it. -/
def boundProtocol (count : ℕ) : ForeignResourceProtocol :=
  { handleProtocol with
    roles :=
      [{ kind := RoleKind.acquireOwned, callableTypeIndex := 1
         parameters := (List.range count).map fun i =>
          { kind := ParameterKind.bound, parameterIndex := UInt32.ofNat i, name := [UInt8.ofNat 97] } },
        { kind := RoleKind.closeQuiescent, callableTypeIndex := 2, quiescence := Quiescence.quiescent
          parameters := [{ kind := ParameterKind.resource, parameterIndex := 0 }] }] }

/-- The words of the handle with the release authority 256. -/
def cutProtocol : WireProtocol := { handleProtocol.widen with releaseAuthority := 256 }

/-- A protocol with sixty-five parameters is accepted and is not decoded; bytes with the release
authority 256 are accepted as those with the authority 0. -/
theorem codec_not_inverse :
    ((boundProtocol 65).verify 3 = .ok () ∧
      decodeForeignResourceProtocol (encodeForeignResourceProtocol (boundProtocol 65)) 3 ≠
        .ok (boundProtocol 65)) ∧
    decodeForeignResourceProtocol cutProtocol.bytes 3 = .ok handleProtocol ∧
      encodeForeignResourceProtocol handleProtocol ≠ cutProtocol.bytes := by
  refine ⟨⟨by decide +kernel, by decide +kernel⟩, by decide +kernel, by decide +kernel⟩

end ForeignProtocol

end Chtholly
