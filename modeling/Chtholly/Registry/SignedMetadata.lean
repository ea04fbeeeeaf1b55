import Chtholly.Registry.MetadataRoundTrip
import Chtholly.Registry.NoRollback

/-!
# What the signed texts of metadata cover

A signed text has the lengths of its fields and the numbers of its lists, so every field can be read
off it.  Two values that were read and have one signed text differ in their signatures only.

## Main results

* `Registry.rootPayload_inj`, `Registry.snapshotSignatureInput_inj`,
  `Registry.timestampSignatureInput_inj` — the fields of a signed text.
* `Registry.metadata_survives` — what was read is read back from its text, and is what was signed.
-/

set_option autoImplicit false

namespace Chtholly

namespace Registry

/-! ## Parts of a signed text -/

/-- A number on a line of its own can be read off in one way only. -/
lemma decimalLine_inj {m n : ℕ} {x y : Text} (h : decimal m ++ '\n' :: x = decimal n ++ '\n' :: y) :
    m = n ∧ x = y := by
  have hcut := congrArg (cut '\n') h
  rw [cut_append (newline_notMem_decimal m), cut_append (newline_notMem_decimal n)] at hcut
  obtain ⟨hdecimal, hrest⟩ := Prod.mk.inj (Option.some.inj hcut)
  exact ⟨decimal_injective hdecimal, hrest⟩

lemma appendFields_inj {name : Text} {vs ws : List Text} (hlength : vs.length = ws.length)
    {x y : Text} (h : vs.flatMap (appendField name) ++ x = ws.flatMap (appendField name) ++ y) :
    vs = ws ∧ x = y := by
  induction vs generalizing ws with
  | nil =>
    obtain rfl := List.length_eq_zero_iff.1 hlength.symm
    exact ⟨rfl, h⟩
  | cons v vs ih =>
    cases ws with
    | nil => cases hlength
    | cons w ws =>
      rw [List.flatMap_cons, List.flatMap_cons, List.append_assoc, List.append_assoc] at h
      obtain ⟨rfl, hrest⟩ := appendField_inj h
      obtain ⟨rfl, hxy⟩ := ih (Nat.succ.inj hlength) hrest
      exact ⟨rfl, hxy⟩

/-- A number and as many fields. -/
lemma countedFields_inj {name : Text} {vs ws : List Text} {x y : Text}
    (h : decimal vs.length ++ '\n' :: (vs.flatMap (appendField name) ++ x) =
      decimal ws.length ++ '\n' :: (ws.flatMap (appendField name) ++ y)) : vs = ws ∧ x = y := by
  obtain ⟨hlength, hrest⟩ := decimalLine_inj h
  exact appendFields_inj hlength hrest

lemma version_inj {u v : UInt64} (h : decimal u.toNat = decimal v.toNat) : u = v :=
  UInt64.toNat_inj.1 (decimal_injective h)

/-- The first line of a signed text names the format. -/
lemma header_inj {p q : Prop} [Decidable p] [Decidable q] {first second x y : Text}
    (hlength : first.length = second.length) (hne : first ≠ second)
    (h : (if p then first else second) ++ x = (if q then first else second) ++ y) :
    (p ↔ q) ∧ x = y := by
  have hsame : (if p then first else second).length = (if q then first else second).length := by
    split <;> split
    all_goals first | rfl | exact hlength | exact hlength.symm
  obtain ⟨hheader, hrest⟩ := List.append_inj h hsame
  refine ⟨?_, hrest⟩
  split at hheader
  case isTrue hp =>
    split at hheader
    case isTrue hq => exact iff_of_true hp hq
    case isFalse => exact absurd hheader hne
  case isFalse hp =>
    split at hheader
    case isTrue => exact absurd hheader.symm hne
    case isFalse hq => exact iff_of_false hp hq

/-- Two formats, of which each is one of two, are told apart by the second one. -/
lemma format_inj {first second a b : Text} (ha : a = first ∨ a = second)
    (hb : b = first ∨ b = second) (h : a = second ↔ b = second) : a = b := by
  obtain rfl | rfl := hb
  · obtain rfl | rfl := ha
    · rfl
    · exact (h.1 rfl).symm
  · exact h.2 rfl

lemma appendRole_inj {name : String} {role other : TrustRole} (hrole : sortTexts role.keys = role.keys)
    (hother : sortTexts other.keys = other.keys) {x y : Text}
    (h : appendRole name role ++ x = appendRole name other ++ y) : role = other ∧ x = y := by
  simp only [appendRole, hrole, hother, List.append_assoc, List.cons_append] at h
  obtain ⟨hthreshold, hrest⟩ := appendField_inj h
  obtain ⟨hkeys, hxy⟩ := countedFields_inj (List.append_cancel_left hrest)
  cases role
  cases other
  cases hkeys
  cases decimal_injective hthreshold
  exact ⟨rfl, hxy⟩

/-! ## The signed texts -/

theorem timestampSignatureInput_inj {a b : TimestampMetadata}
    (h : timestampSignatureInput a = timestampSignatureInput b) :
    { a with signatures := b.signatures } = b := by
  unfold timestampSignatureInput at h
  rw [← List.append_nil (_ ++ appendField "snapshot-sha256".toList a.snapshotSha256),
    ← List.append_nil (_ ++ appendField "snapshot-sha256".toList b.snapshotSha256)] at h
  simp only [List.append_assoc] at h
  obtain ⟨hregistry, h⟩ := appendField_inj (List.append_cancel_left h)
  obtain ⟨hversion, h⟩ := appendField_inj h
  obtain ⟨hroot, h⟩ := appendField_inj h
  obtain ⟨hexpires, h⟩ := appendField_inj h
  obtain ⟨hsnapshot, h⟩ := appendField_inj h
  obtain ⟨hdigest, -⟩ := appendField_inj h
  obtain ⟨⟨_, _, _, _⟩, _, _, _⟩ := a
  obtain ⟨⟨_, _, _, _⟩, _, _, _⟩ := b
  cases hregistry
  cases version_inj hversion
  cases version_inj hroot
  cases hexpires
  cases version_inj hsnapshot
  cases hdigest
  rfl

theorem snapshotSignatureInput_inj {a b : SnapshotMetadata} (ha : a.Readable) (hb : b.Readable)
    (h : snapshotSignatureInput a = snapshotSignatureInput b) :
    { a with signatures := b.signatures } = b := by
  unfold snapshotSignatureInput at h
  simp only [List.append_assoc] at h
  obtain ⟨hformats, h⟩ := header_inj (by decide) (by decide) h
  have hformat := format_inj ha.format hb.format hformats
  obtain ⟨hregistry, h⟩ := appendField_inj h
  obtain ⟨hversion, h⟩ := appendField_inj h
  obtain ⟨hroot, h⟩ := appendField_inj h
  obtain ⟨hexpires, h⟩ := appendField_inj h
  obtain ⟨hpackages, h⟩ := appendField_inj h
  have hcheckpoint : a.auditCheckpointSha256 = b.auditCheckpointSha256 := by
    by_cases hv2 : a.format = snapshotFormatV2
    · rw [if_pos hv2, if_pos (hformats.1 hv2),
        ← List.append_nil (appendField _ a.auditCheckpointSha256),
        ← List.append_nil (appendField _ b.auditCheckpointSha256)] at h
      exact (appendField_inj h).1
    · rw [ha.noCheckpoint hv2, hb.noCheckpoint fun hv2' => hv2 (hformats.2 hv2')]
  obtain ⟨⟨_, _, _, _⟩, _, _, _, _⟩ := a
  obtain ⟨⟨_, _, _, _⟩, _, _, _, _⟩ := b
  cases hformat
  cases hregistry
  cases version_inj hversion
  cases version_inj hroot
  cases hexpires
  cases hpackages
  cases hcheckpoint
  rfl

theorem rootPayload_inj {crypto : Crypto} {a b : RootMetadata} (ha : a.Readable crypto)
    (hb : b.Readable crypto) (h : rootPayload a = rootPayload b) :
    { a.rendered with signatures := b.signatures } = b.rendered := by
  unfold rootPayload at h
  simp only [List.append_assoc] at h
  obtain ⟨hformats, h⟩ := header_inj (by decide) (by decide) h
  have hformat := format_inj ha.format hb.format hformats
  obtain ⟨hregistry, h⟩ := appendField_inj h
  obtain ⟨hversion, h⟩ := appendField_inj h
  obtain ⟨hexpires, h⟩ := appendField_inj h
  obtain ⟨hroot, h⟩ := appendRole_inj (sortTexts_of_validRole ha.rootRole.valid)
    (sortTexts_of_validRole hb.rootRole.valid) h
  obtain ⟨htargets, h⟩ := appendRole_inj (sortTexts_of_validRole ha.targets.valid)
    (sortTexts_of_validRole hb.targets.valid) h
  obtain ⟨hsnapshot, h⟩ := appendRole_inj (sortTexts_of_validRole ha.snapshot.valid)
    (sortTexts_of_validRole hb.snapshot.valid) h
  obtain ⟨htimestamp, h⟩ := appendRole_inj (sortTexts_of_validRole ha.timestamp.valid)
    (sortTexts_of_validRole hb.timestamp.valid) h
  have haudit : a.rendered.audit = b.rendered.audit ∧
      "revoked-count\t".toList ++ (decimal a.revokedKeyIds.length ++
        '\n' :: (sortTexts a.revokedKeyIds).flatMap (appendField "revoked".toList)) =
      "revoked-count\t".toList ++ (decimal b.revokedKeyIds.length ++
        '\n' :: (sortTexts b.revokedKeyIds).flatMap (appendField "revoked".toList)) := by
    by_cases hv2 : a.format = rootFormatV2
    · have hv2' := hformats.1 hv2
      rw [if_pos hv2, if_pos hv2'] at h
      rw [RootMetadata.rendered, if_pos hv2, RootMetadata.rendered, if_pos hv2']
      exact appendRole_inj (sortTexts_of_validRole (ha.audit hv2).valid)
        (sortTexts_of_validRole (hb.audit hv2').valid) h
    · have hv2' : ¬ b.format = rootFormatV2 := fun hv => hv2 (hformats.2 hv)
      rw [if_neg hv2, if_neg hv2'] at h
      rw [RootMetadata.rendered, if_neg hv2, RootMetadata.rendered, if_neg hv2']
      exact ⟨rfl, h⟩
  obtain ⟨haudit, h⟩ := haudit
  have hcount := List.append_cancel_left h
  rw [revoked_of_checkRevoked ha.revoked, revoked_of_checkRevoked hb.revoked,
    ← List.append_nil (a.revokedKeyIds.flatMap _), ← List.append_nil (b.revokedKeyIds.flatMap _)]
    at hcount
  obtain ⟨hrevoked, -⟩ := countedFields_inj hcount
  unfold RootMetadata.rendered at haudit ⊢
  obtain ⟨⟨_, _, _, _⟩, _, _, _, _, _, _, _⟩ := a
  obtain ⟨⟨_, _, _, _⟩, _, _, _, _, _, _, _⟩ := b
  cases hformat
  cases hregistry
  cases version_inj hversion
  cases hexpires
  cases hroot
  cases htargets
  cases hsnapshot
  cases htimestamp
  cases hrevoked
  dsimp only at haudit ⊢
  split at haudit
  case isTrue hv2 =>
    cases haudit
    rw [if_pos hv2, if_pos hv2]
  case isFalse hv2 => rw [if_neg hv2, if_neg hv2]

/-! ## Everything that was read -/

/-- What was read is read back from the text that is written of it, and values with one signed text
differ in their signatures only.  The role of auditors of a root of the first format is neither
written nor signed. -/
theorem metadata_survives (crypto : Crypto) :
    (∀ text path root, parseRootMetadata crypto text path = .ok root →
      (∀ path', parseRootMetadata crypto (renderRootMetadata root) path' = .ok root.rendered) ∧
      ∀ text' path' root', parseRootMetadata crypto text' path' = .ok root' →
        rootPayload root = rootPayload root' →
        { root.rendered with signatures := root'.signatures } = root'.rendered) ∧
    (∀ text path snapshot, parseSnapshotMetadata text path = .ok snapshot →
      (∀ path', parseSnapshotMetadata (renderSnapshotMetadata snapshot) path' = .ok snapshot) ∧
      ∀ text' path' snapshot', parseSnapshotMetadata text' path' = .ok snapshot' →
        snapshotSignatureInput snapshot = snapshotSignatureInput snapshot' →
        { snapshot with signatures := snapshot'.signatures } = snapshot') ∧
    ∀ text path timestamp, parseTimestampMetadata text path = .ok timestamp →
      (∀ path', parseTimestampMetadata (renderTimestampMetadata timestamp) path' =
        .ok timestamp) ∧
      ∀ text' path' timestamp', parseTimestampMetadata text' path' = .ok timestamp' →
        timestampSignatureInput timestamp = timestampSignatureInput timestamp' →
        { timestamp with signatures := timestamp'.signatures } = timestamp' := by
  refine ⟨fun text path root h => ?_, fun text path snapshot h => ?_,
    fun text path timestamp h => ?_⟩
  · have hroot := readable_of_parseRootMetadata h
    refine ⟨parse_renderRootMetadata hroot, fun text' path' root' h' hpayload => ?_⟩
    exact rootPayload_inj hroot (readable_of_parseRootMetadata h') hpayload
  · have hsnapshot := readable_of_parseSnapshotMetadata h
    refine ⟨parse_renderSnapshotMetadata hsnapshot, fun text' path' snapshot' h' hinput => ?_⟩
    exact snapshotSignatureInput_inj hsnapshot (readable_of_parseSnapshotMetadata h') hinput
  · have htimestamp := readable_of_parseTimestampMetadata h
    refine ⟨parse_renderTimestampMetadata htimestamp, fun text' path' timestamp' _ hinput => ?_⟩
    exact timestampSignatureInput_inj hinput

/-- A root of the first format with a role of auditors. -/
def auditedText : Text :=
  documentText (rootFront soleRoot ++ (rootRoles soleRoot ++ (roleLines .audit soleRole ++
    rootRest soleRoot)))

lemma auditedText_read : ((parseRootMetadata soleCrypto auditedText []).toOption.map
    fun root => (root.format, root.audit)) = some (rootFormat, soleRole) := by
  decide +kernel

/-- The role of auditors of a root of the first format is read, and not written. -/
theorem audit_not_written :
    ¬ ∀ (crypto : Crypto) (text path : Text) (root : RootMetadata),
      parseRootMetadata crypto text path = .ok root →
        parseRootMetadata crypto (renderRootMetadata root) path = .ok root := by
  intro hclaim
  cases hread : parseRootMetadata soleCrypto auditedText [] with
  | error message =>
    have hsome := auditedText_read
    rw [hread] at hsome
    cases hsome
  | ok root =>
    have hroot := auditedText_read
    rw [hread] at hroot
    obtain ⟨hformat, haudit⟩ := Prod.mk.inj (Option.some.inj hroot)
    have hback := parse_renderRootMetadata (readable_of_parseRootMetadata hread) []
    have hne : ¬ root.format = rootFormatV2 := by
      rw [hformat]
      decide
    rw [hclaim _ _ _ _ hread, RootMetadata.rendered, if_neg hne] at hback
    have hkeys := congrArg RootMetadata.audit (Except.ok.inj hback)
    rw [haudit] at hkeys
    cases hkeys

/-- A registry with one key: its root, its snapshot and its timestamp. -/
theorem sole_survives :
    (parseRootMetadata soleCrypto (renderRootMetadata soleRoot) []).toBool = true ∧
      (∀ root, parseRootMetadata soleCrypto (renderRootMetadata soleRoot) [] = .ok root →
        parseRootMetadata soleCrypto (renderRootMetadata root) [] = .ok root.rendered) ∧
      (∀ snapshot, parseSnapshotMetadata (renderSnapshotMetadata soleSnapshot) [] = .ok snapshot →
        parseSnapshotMetadata (renderSnapshotMetadata snapshot) [] = .ok snapshot) :=
  ⟨by rw [parse_renderRootMetadata readable_soleRoot]; rfl,
    fun root h => ((metadata_survives soleCrypto).1 _ _ root h).1 [],
    fun snapshot h => ((metadata_survives soleCrypto).2.1 _ _ snapshot h).1 []⟩

end Registry

end Chtholly
