import Chtholly.Scanning.Text
import Chtholly.Registry.Statement

/-!
# Signatures of a role

A role is a list of public keys and a threshold.  A text is signed by a role when enough of its
keys, revoked ones left out, have a valid signature on it.  Decoding a key and checking a signature
are done by a cryptographic library, which is a parameter here.

## Main definitions

* `Registry.Crypto` — what the library provides.
* `Registry.publicKeyId` — the identity of a key.
* `Registry.verifyThreshold` — the check of the signatures of a role.
-/

set_option autoImplicit false

namespace Chtholly

namespace Registry

/-- Keys and signatures as the library handles them: `parsePublicKey` decodes the text of a key,
`verifyDetached` decodes the text of a signature and checks it. -/
structure Crypto where
  parsePublicKey : Text → Option Bytes
  verifyDetached : Bytes → Text → Text → Bool

def publicKeyId (key : Bytes) : Text := "sha256:".toList ++ sha256Hex key

/-- `RegistryTrustRole`. -/
structure TrustRole where
  keys : List Text
  threshold : ℕ
  deriving DecidableEq

/-- The key that a text of a role stands for, if it has a valid signature on the payload. -/
def acceptedKey (crypto : Crypto) (payload : Text) (signatures : List MetadataSignature)
    (revoked : List Text) (publicText : Text) : Option Bytes :=
  (crypto.parsePublicKey publicText).bind fun key =>
    let id := publicKeyId key
    if id ∈ revoked then none
    else
      match signatures.find? fun signature => signature.keyId == id with
      | none => none
      | some found => if crypto.verifyDetached key payload found.signature then some key else none

def verifyThreshold (crypto : Crypto) (payload : Text) (signatures : List MetadataSignature)
    (role : TrustRole) (revoked : List Text) : Except String Unit :=
  if (role.keys.filterMap (acceptedKey crypto payload signatures revoked)).length < role.threshold then
    .error "registry metadata signature threshold was not satisfied"
  else .ok ()

lemma acceptedKey_eq_some {crypto : Crypto} {payload : Text} {signatures : List MetadataSignature}
    {revoked : List Text} {publicText : Text} {key : Bytes}
    (h : acceptedKey crypto payload signatures revoked publicText = some key) :
    crypto.parsePublicKey publicText = some key ∧ publicKeyId key ∉ revoked ∧
      ∃ signature ∈ signatures, signature.keyId = publicKeyId key ∧
        crypto.verifyDetached key payload signature.signature = true := by
  obtain ⟨parsed, hparse, h⟩ := Option.bind_eq_some_iff.mp h
  dsimp only at h
  split at h
  · simp at h
  · rename_i hrevoked
    split at h
    · simp at h
    · rename_i found hfound
      split at h
      · rename_i hverify
        obtain rfl := Option.some.inj h
        have hid : found.keyId = publicKeyId parsed := by simpa using List.find?_some hfound
        exact ⟨hparse, hrevoked, found, List.mem_of_find?_eq_some hfound, hid, hverify⟩
      · simp at h

end Registry

end Chtholly
