import Chtholly.Codec.Words
import Chtholly.ForeignProtocol.Protocol

/-!
# The encoding of foreign resource protocols

A protocol is encoded as a row of words.  The decoder keeps account of the nodes and the text it
reads, and narrows the words of the enumerations to their bytes.

A reader fails with the error of the account, if that is what failed; otherwise the caller has its own
text for the failure.

## Main definitions

* `ForeignProtocol.ArtifactDecodeContext`, `ForeignProtocol.Reader` — the decoder's state.
* `ForeignProtocol.encodeForeignResourceProtocol`, `ForeignProtocol.decodeForeignResourceProtocol` —
  the codec.
-/

set_option autoImplicit false

namespace Chtholly

namespace ForeignProtocol

open Codec (littleEndian ofLittleEndian)

/-! ## Encoding -/

def appendU32 (value : UInt32) : Bytes := littleEndian 4 value.toNat

def appendU64 (value : UInt64) : Bytes := littleEndian 8 value.toNat

def appendField (value : Bytes) : Bytes := appendU32 (UInt32.ofNat value.length) ++ value

/-- The number of the roles of a path, and their kinds. -/
def appendPath (path : List RoleKind) : Bytes :=
  appendU32 (UInt32.ofNat path.length) ++ path.flatMap fun role => appendU32 role.toUInt32

def appendParameter (parameter : ForeignResourceParameterBinding) : Bytes :=
  appendU32 parameter.kind.toUInt32 ++ appendU32 parameter.parameterIndex ++
    appendField parameter.name

def appendRole (role : ForeignResourceRole) : Bytes :=
  appendU32 role.kind.toUInt32 ++ appendU32 role.callableTypeIndex ++
    appendU32 role.quiescence.toUInt32 ++ appendU32 (UInt32.ofNat role.parameters.length) ++
    role.parameters.flatMap appendParameter

def encodeForeignResourceProtocol (protocol : ForeignResourceProtocol) : Bytes :=
  appendU32 protocol.semanticEpoch ++
    appendU32 (if protocol.completionProjection = true then 1 else 0) ++
    appendU32 protocol.callbackTypeIndex ++ appendU32 protocol.resourceTypeIndex ++
    appendU32 protocol.completionTypeIndex ++ appendU32 protocol.invalidState.toUInt32 ++
    appendU64 protocol.invalidInteger.toUInt64 ++ appendU32 protocol.releaseAuthority.toUInt32 ++
    appendPath protocol.cleanupPath ++ appendPath protocol.completionCleanupPath ++
    appendPath protocol.wakeCleanupPath ++ appendU32 (UInt32.ofNat protocol.roles.length) ++
    protocol.roles.flatMap appendRole

/-! ## The decoder's account -/

/-- The limits of `ArtifactDecodeLimits`. -/
def maxInputBytes : ℕ := 64 * 1024 * 1024

def maxNodes : ℕ := 1000000

def maxStringBytes : ℕ := 32 * 1024 * 1024

def maxSingleStringBytes : ℕ := 8 * 1024 * 1024

/-- `ArtifactDecodeContext`, with the bytes that are not read yet. -/
structure ArtifactDecodeContext where
  rest : Bytes
  nodes : ℕ := 0
  stringBytes : ℕ := 0

abbrev Reader := StateT ArtifactDecodeContext (Except (Option String))

def consumeNodes (count : ℕ) : Reader Unit := fun context =>
  if count > maxNodes - context.nodes then
    .error (some "node-budget: compiler artifact exceeds the decoder node budget")
  else .ok ((), { context with nodes := context.nodes + count })

def consumeString (size : ℕ) : Reader Unit := fun context =>
  if size > maxSingleStringBytes then
    .error (some "string-budget: compiler artifact string exceeds the per-string limit")
  else if size > maxStringBytes - context.stringBytes then
    .error (some "string-budget: compiler artifact exceeds the decoder string budget")
  else consumeNodes 1 { context with stringBytes := context.stringBytes + size }

/-- `count` bytes. -/
def readBytes (count : ℕ) : Reader Bytes := fun context =>
  if context.rest.length < count then .error none
  else .ok (context.rest.take count, { context with rest := context.rest.drop count })

def readU32 : Reader UInt32 := do
  let bytes ← readBytes 4
  return UInt32.ofNat (ofLittleEndian bytes)

def readU64 : Reader UInt64 := do
  let bytes ← readBytes 8
  return UInt64.ofNat (ofLittleEndian bytes)

/-- A check whose failure is not one of the account. -/
def require (condition : Bool) : Reader Unit := fun context =>
  if condition = true then .ok ((), context) else .error none

/-- The number of bytes that are not read yet. -/
def remaining : Reader ℕ := fun context => .ok (context.rest.length, context)

/-- `read_string`; the size is compared with what is left before it is accounted for. -/
def readString : Reader Bytes := do
  let size ← readU32
  let left ← remaining
  require (decide (size.toNat ≤ left))
  consumeString size.toNat
  readBytes size.toNat

/-- The text of a failure that is not one of the account. -/
def orError {α : Type} (error : String) (reader : Reader α) : Reader α := fun context =>
  match reader context with
  | .ok result => .ok result
  | .error budget => .error (some (budget.getD error))

/-- `count` readings one after the other. -/
def readMany {α : Type} (reader : Reader α) : ℕ → Reader (List α)
  | 0 => pure []
  | count + 1 => do
    let first ← reader
    let rest ← readMany reader count
    return first :: rest

/-! ## Decoding -/

/-- The number of what follows, which is at most `limit`. -/
def readCount (limit : ℕ) : Reader ℕ := do
  let count ← readU32
  require (decide (count.toNat ≤ limit))
  consumeNodes count.toNat
  return count.toNat

/-- A role's kind, narrowed to a byte. -/
def readRoleKind : Reader RoleKind := do
  let role ← readU32
  return role.toUInt8

/-- `read_cleanup_path`. -/
def readCleanupPath : Reader (List RoleKind) := do
  let count ← readCount 8
  readMany readRoleKind count

def readParameter : Reader ForeignResourceParameterBinding := do
  let kind ← readU32
  let parameterIndex ← readU32
  let name ← readString
  return { kind := kind.toUInt8, parameterIndex := parameterIndex, name := name }

/-- The words of a role, with the number of its parameters. -/
def readRoleWords : Reader (UInt32 × UInt32 × UInt32 × ℕ) := do
  let kind ← readU32
  let callableTypeIndex ← readU32
  let quiescence ← readU32
  let count ← readCount 64
  return (kind, callableTypeIndex, quiescence, count)

def readRole : Reader ForeignResourceRole := do
  let (kind, callableTypeIndex, quiescence, count) ←
    orError "foreign resource role encoding is truncated" readRoleWords
  let parameters ←
    readMany (orError "foreign resource parameter encoding is truncated" readParameter) count
  return {
    kind := kind.toUInt8
    callableTypeIndex := callableTypeIndex
    quiescence := quiescence.toUInt8
    parameters := parameters }

/-- The words before the paths, with the number of the roles of the first one. -/
def readHeader : Reader (ForeignResourceProtocol × ℕ) := do
  let semanticEpoch ← readU32
  let projection ← readU32
  require (decide (projection ≤ 1))
  let callbackTypeIndex ← readU32
  let resourceTypeIndex ← readU32
  let completionTypeIndex ← readU32
  let invalidState ← readU32
  let invalidInteger ← readU64
  let authority ← readU32
  let cleanupCount ← readCount 8
  return (
    { semanticEpoch := semanticEpoch
      completionProjection := decide (projection ≠ 0)
      callbackTypeIndex := callbackTypeIndex
      resourceTypeIndex := resourceTypeIndex
      completionTypeIndex := completionTypeIndex
      invalidState := invalidState.toUInt8
      invalidInteger := invalidInteger.toInt64
      releaseAuthority := authority.toUInt8 }, cleanupCount)

def readProtocol : Reader ForeignResourceProtocol := do
  let (header, cleanupCount) ←
    orError "foreign resource protocol encoding is truncated" readHeader
  let cleanupPath ←
    orError "foreign resource cleanup path encoding is truncated" (readMany readRoleKind cleanupCount)
  let completionCleanupPath ←
    orError "foreign resource projected cleanup path encoding is truncated" readCleanupPath
  let wakeCleanupPath ←
    orError "foreign resource projected cleanup path encoding is truncated" readCleanupPath
  let roleCount ← orError "foreign resource protocol encoding is truncated" (readCount 64)
  let roles ← readMany readRole roleCount
  return { header with
      cleanupPath := cleanupPath
      completionCleanupPath := completionCleanupPath
      wakeCleanupPath := wakeCleanupPath
      roles := roles }

def decodeForeignResourceProtocol (bytes : Bytes) (typeCount : UInt32) :
    Except String ForeignResourceProtocol :=
  if bytes.length > maxInputBytes then
    .error "input-limit: compiler artifact exceeds the decoder input limit"
  else
    match readProtocol { rest := bytes } with
    | .error budget => .error (budget.getD "foreign resource protocol encoding is truncated")
    | .ok (protocol, context) =>
      if context.rest ≠ [] then .error "foreign resource protocol encoding has trailing bytes"
      else
        match protocol.verify typeCount with
        | .error error => .error error
        | .ok () => .ok protocol

end ForeignProtocol

end Chtholly
