import Chtholly.ForeignProtocol.Codec
import Mathlib.Algebra.Group.Action.Defs
import Mathlib.Algebra.Order.BigOperators.Group.List

/-!
# Encoding and decoding foreign resource protocols

The format of the encoding has a word for each enumeration; the decoder keeps the lowest byte of it.
So bytes that are accepted spell a row of words, of which the protocol is the narrowed form, and they
are the encoding of the protocol exactly when nothing was lost.

## Main definitions

* `ForeignProtocol.WireProtocol` — the words of an encoding.
* `ForeignProtocol.Encodable` — the protocols within the limits of the decoder.

## Main results

* `ForeignProtocol.readProtocol_eq_ok` — bytes that are read spell a row of words.
* `ForeignProtocol.readProtocol_append` — a row of words within the limits is read.
* `ForeignProtocol.codec_iff` — when encoding and decoding are inverse.
-/

set_option autoImplicit false

namespace Chtholly

namespace ForeignProtocol

open Codec (littleEndian ofLittleEndian)

/-! ## Words -/

lemma length_appendU32 (value : UInt32) : (appendU32 value).length = 4 :=
  Codec.length_littleEndian _ _

lemma ofNat_appendU32 (value : UInt32) : UInt32.ofNat (ofLittleEndian (appendU32 value)) = value := by
  have hlt : value.toNat < 256 ^ 4 := value.toNat_lt
  rw [appendU32, Codec.ofLittleEndian_littleEndian, Nat.mod_eq_of_lt hlt, UInt32.ofNat_toNat]

lemma appendU32_ofNat {bytes : Bytes} (h : bytes.length = 4) :
    appendU32 (UInt32.ofNat (ofLittleEndian bytes)) = bytes := by
  have hlt := Codec.ofLittleEndian_lt bytes
  rw [h] at hlt
  rw [appendU32, UInt32.toNat_ofNat_of_lt' hlt, ← h, Codec.littleEndian_ofLittleEndian]

lemma ofNat_appendU64 (value : UInt64) : UInt64.ofNat (ofLittleEndian (appendU64 value)) = value := by
  have hlt : value.toNat < 256 ^ 8 := value.toNat_lt
  rw [appendU64, Codec.ofLittleEndian_littleEndian, Nat.mod_eq_of_lt hlt, UInt64.ofNat_toNat]

lemma appendU64_ofNat {bytes : Bytes} (h : bytes.length = 8) :
    appendU64 (UInt64.ofNat (ofLittleEndian bytes)) = bytes := by
  have hlt := Codec.ofLittleEndian_lt bytes
  rw [h] at hlt
  rw [appendU64, UInt64.toNat_ofNat_of_lt' hlt, ← h, Codec.littleEndian_ofLittleEndian]

/-! ## What a reader takes -/

/-- Between two states the bytes `bytes` were read, of which `text` are accounted for as text. -/
structure Took (before after : ArtifactDecodeContext) (bytes : Bytes) (text : ℕ) : Prop where
  rest : before.rest = bytes ++ after.rest
  text : after.stringBytes = before.stringBytes + text
  limit : before.stringBytes ≤ maxStringBytes → after.stringBytes ≤ maxStringBytes

lemma Took.refl (context : ArtifactDecodeContext) : Took context context [] 0 :=
  ⟨rfl, rfl, id⟩

lemma Took.trans {first second third : ArtifactDecodeContext} {bytes bytes' : Bytes}
    {text text' : ℕ} (h : Took first second bytes text) (h' : Took second third bytes' text') :
    Took first third (bytes ++ bytes') (text + text') where
  rest := by rw [h.rest, h'.rest, List.append_assoc]
  text := by rw [h'.text, h.text, Nat.add_assoc]
  limit := h'.limit ∘ h.limit

section Reader

variable {α β : Type} {reader : Reader α} {next : α → Reader β}
  {context context' : ArtifactDecodeContext}

lemma bind_eq_ok {result : β × ArtifactDecodeContext} :
    (reader >>= next) context = .ok result ↔
      ∃ value middle, reader context = .ok (value, middle) ∧ next value middle = .ok result := by
  show (StateT.bind reader next) context = .ok result ↔ _
  unfold StateT.bind
  cases h : reader context with
  | error error => exact iff_of_false nofun nofun
  | ok pair =>
    obtain ⟨value, middle⟩ := pair
    constructor
    · exact fun hnext => ⟨value, middle, rfl, hnext⟩
    · rintro ⟨_, _, ⟨⟩, hnext⟩
      exact hnext

lemma bind_of_ok {value : α} (h : reader context = .ok (value, context')) :
    (reader >>= next) context = next value context' := by
  show (StateT.bind reader next) context = _
  unfold StateT.bind
  rw [h]
  rfl

lemma pure_eq_ok {value : α} {result : α × ArtifactDecodeContext} :
    (pure value : Reader α) context = .ok result ↔ (value, context) = result :=
  ⟨Except.ok.inj, congrArg Except.ok⟩

lemma orError_eq_ok {error : String} {result : α × ArtifactDecodeContext} :
    orError error reader context = .ok result ↔ reader context = .ok result := by
  unfold orError
  cases reader context with
  | error budget => exact iff_of_false nofun nofun
  | ok pair => exact ⟨id, id⟩

lemma require_eq_ok {condition : Bool} {result : Unit × ArtifactDecodeContext} :
    require condition context = .ok result ↔ condition = true ∧ ((), context) = result := by
  unfold require
  split
  case isTrue h => exact ⟨fun hok => ⟨h, Except.ok.inj hok⟩, fun hok => congrArg Except.ok hok.2⟩
  case isFalse h => exact iff_of_false nofun fun hok => h hok.1

lemma consumeNodes_eq_ok {count : ℕ} {done : Unit}
    (h : consumeNodes count context = .ok (done, context')) : Took context context' [] 0 := by
  unfold consumeNodes at h
  split at h
  case isTrue => cases h
  case isFalse =>
    cases h
    exact ⟨rfl, rfl, id⟩

lemma readBytes_eq_ok {count : ℕ} {bytes : Bytes}
    (h : readBytes count context = .ok (bytes, context')) :
    bytes.length = count ∧ Took context context' bytes 0 := by
  unfold readBytes at h
  split at h
  case isTrue => cases h
  case isFalse hlength =>
    cases h
    rw [List.length_take]
    exact ⟨by omega, (List.take_append_drop _ _).symm, rfl, id⟩

lemma readU32_eq_ok {value : UInt32} (h : readU32 context = .ok (value, context')) :
    Took context context' (appendU32 value) 0 := by
  obtain ⟨bytes, middle, hbytes, hpure⟩ := bind_eq_ok.1 h
  obtain ⟨hlength, htook⟩ := readBytes_eq_ok hbytes
  cases pure_eq_ok.1 hpure
  rw [appendU32_ofNat hlength]
  exact htook

lemma readU64_eq_ok {value : UInt64} (h : readU64 context = .ok (value, context')) :
    Took context context' (appendU64 value) 0 := by
  obtain ⟨bytes, middle, hbytes, hpure⟩ := bind_eq_ok.1 h
  obtain ⟨hlength, htook⟩ := readBytes_eq_ok hbytes
  cases pure_eq_ok.1 hpure
  rw [appendU64_ofNat hlength]
  exact htook

lemma consumeString_eq_ok {size : ℕ} {done : Unit}
    (h : consumeString size context = .ok (done, context')) :
    size ≤ maxSingleStringBytes ∧ Took context context' [] size := by
  unfold consumeString at h
  split at h
  case isTrue => cases h
  case isFalse hsingle =>
    split at h
    case isTrue => cases h
    case isFalse hall =>
      obtain ⟨hrest, htext, -⟩ := consumeNodes_eq_ok h
      refine ⟨Nat.le_of_not_gt hsingle, hrest, htext, fun hlimit => ?_⟩
      rw [htext]
      show context.stringBytes + size ≤ maxStringBytes
      omega

lemma readString_eq_ok {value : Bytes} (h : readString context = .ok (value, context')) :
    value.length ≤ maxSingleStringBytes ∧
      Took context context' (appendField value) value.length := by
  obtain ⟨size, _, hsize, h₁⟩ := bind_eq_ok.1 h
  obtain ⟨left, _, hleft, h₂⟩ := bind_eq_ok.1 h₁
  obtain ⟨_, _, hrequire, h₃⟩ := bind_eq_ok.1 h₂
  obtain ⟨_, _, hconsume, hbytes⟩ := bind_eq_ok.1 h₃
  cases hleft
  cases (require_eq_ok.1 hrequire).2
  obtain ⟨hsingle, htook⟩ := consumeString_eq_ok hconsume
  obtain ⟨hlength, htook'⟩ := readBytes_eq_ok hbytes
  have hfield : appendField value = appendU32 size ++ ([] ++ value) := by
    rw [appendField, hlength, UInt32.ofNat_toNat, List.nil_append]
  have hall := (readU32_eq_ok hsize).trans (htook.trans htook')
  rw [← hfield, Nat.zero_add, Nat.add_zero, ← hlength] at hall
  exact ⟨hlength ▸ hsingle, hall⟩

lemma readCount_eq_ok {limit count : ℕ} (h : readCount limit context = .ok (count, context')) :
    count ≤ limit ∧ ∃ word : UInt32, word.toNat = count ∧
      Took context context' (appendU32 word) 0 := by
  obtain ⟨word, _, hword, h₁⟩ := bind_eq_ok.1 h
  obtain ⟨_, _, hrequire, h₂⟩ := bind_eq_ok.1 h₁
  obtain ⟨_, _, hconsume, hpure⟩ := bind_eq_ok.1 h₂
  obtain ⟨hlimit, heq⟩ := require_eq_ok.1 hrequire
  cases heq
  cases pure_eq_ok.1 hpure
  have hall := (readU32_eq_ok hword).trans (consumeNodes_eq_ok hconsume)
  rw [List.append_nil] at hall
  exact ⟨of_decide_eq_true hlimit, word, rfl, hall⟩

/-- Readings one after the other take what each of them takes. -/
lemma readMany_eq_ok {γ : Type} {narrow : γ → α} {bytes : γ → Bytes} {text : γ → ℕ} {valid : γ → Prop}
    (hreader : ∀ {context context' value}, reader context = .ok (value, context') →
      ∃ wide, narrow wide = value ∧ valid wide ∧ Took context context' (bytes wide) (text wide))
    {count : ℕ} {values : List α} (h : readMany reader count context = .ok (values, context')) :
    ∃ wides : List γ, wides.length = count ∧ wides.map narrow = values ∧
      (∀ wide ∈ wides, valid wide) ∧
      Took context context' (wides.flatMap bytes) (wides.map text).sum := by
  induction count generalizing context values with
  | zero =>
    cases pure_eq_ok.1 h
    exact ⟨[], rfl, rfl, nofun, Took.refl _⟩
  | succ count ih =>
    obtain ⟨first, _, hfirst, h₁⟩ := bind_eq_ok.1 h
    obtain ⟨rest, _, hrest, hpure⟩ := bind_eq_ok.1 h₁
    cases pure_eq_ok.1 hpure
    obtain ⟨wide, rfl, hvalid, htook⟩ := hreader hfirst
    obtain ⟨wides, rfl, rfl, hvalids, htooks⟩ := ih hrest
    refine ⟨wide :: wides, rfl, rfl, List.forall_mem_cons.2 ⟨hvalid, hvalids⟩, ?_⟩
    rw [List.flatMap_cons, List.map_cons, List.sum_cons]
    exact htook.trans htooks

end Reader

/-! ## The format -/

/-- The words of a parameter, and its name. -/
structure WireParameter where
  kind : UInt32
  parameterIndex : UInt32
  name : Bytes

structure WireRole where
  kind : UInt32
  callableTypeIndex : UInt32
  quiescence : UInt32
  parameters : List WireParameter

/-- A protocol with a word for each enumeration. -/
structure WireProtocol where
  semanticEpoch : UInt32
  completionProjection : Bool
  callbackTypeIndex : UInt32
  resourceTypeIndex : UInt32
  completionTypeIndex : UInt32
  invalidState : UInt32
  invalidInteger : Int64
  releaseAuthority : UInt32
  cleanupPath : List UInt32
  completionCleanupPath : List UInt32
  wakeCleanupPath : List UInt32
  roles : List WireRole

def pathBytes (path : List UInt32) : Bytes :=
  appendU32 (UInt32.ofNat path.length) ++ path.flatMap appendU32

def WireParameter.bytes (parameter : WireParameter) : Bytes :=
  appendU32 parameter.kind ++ appendU32 parameter.parameterIndex ++ appendField parameter.name

def WireRole.bytes (role : WireRole) : Bytes :=
  appendU32 role.kind ++ appendU32 role.callableTypeIndex ++ appendU32 role.quiescence ++
    appendU32 (UInt32.ofNat role.parameters.length) ++ role.parameters.flatMap WireParameter.bytes

def WireProtocol.bytes (protocol : WireProtocol) : Bytes :=
  appendU32 protocol.semanticEpoch ++
    appendU32 (if protocol.completionProjection = true then 1 else 0) ++
    appendU32 protocol.callbackTypeIndex ++ appendU32 protocol.resourceTypeIndex ++
    appendU32 protocol.completionTypeIndex ++ appendU32 protocol.invalidState ++
    appendU64 protocol.invalidInteger.toUInt64 ++ appendU32 protocol.releaseAuthority ++
    pathBytes protocol.cleanupPath ++ pathBytes protocol.completionCleanupPath ++
    pathBytes protocol.wakeCleanupPath ++ appendU32 (UInt32.ofNat protocol.roles.length) ++
    protocol.roles.flatMap WireRole.bytes

def WireParameter.narrow (parameter : WireParameter) : ForeignResourceParameterBinding where
  kind := parameter.kind.toUInt8
  parameterIndex := parameter.parameterIndex
  name := parameter.name

def WireRole.narrow (role : WireRole) : ForeignResourceRole where
  kind := role.kind.toUInt8
  callableTypeIndex := role.callableTypeIndex
  quiescence := role.quiescence.toUInt8
  parameters := role.parameters.map WireParameter.narrow

/-- The protocol of which only the lowest byte of each enumeration is kept. -/
def WireProtocol.narrow (protocol : WireProtocol) : ForeignResourceProtocol where
  semanticEpoch := protocol.semanticEpoch
  completionProjection := protocol.completionProjection
  callbackTypeIndex := protocol.callbackTypeIndex
  resourceTypeIndex := protocol.resourceTypeIndex
  completionTypeIndex := protocol.completionTypeIndex
  invalidState := protocol.invalidState.toUInt8
  invalidInteger := protocol.invalidInteger
  releaseAuthority := protocol.releaseAuthority.toUInt8
  cleanupPath := protocol.cleanupPath.map UInt32.toUInt8
  completionCleanupPath := protocol.completionCleanupPath.map UInt32.toUInt8
  wakeCleanupPath := protocol.wakeCleanupPath.map UInt32.toUInt8
  roles := protocol.roles.map WireRole.narrow

/-- The bytes of the names of the parameters. -/
def WireRole.text (role : WireRole) : ℕ := (role.parameters.map fun parameter => parameter.name.length).sum

def WireProtocol.text (protocol : WireProtocol) : ℕ := (protocol.roles.map WireRole.text).sum

/-- The limits of the decoder on a role. -/
structure WireRole.Within (role : WireRole) : Prop where
  parameters : role.parameters.length ≤ 64
  names : ∀ parameter ∈ role.parameters, parameter.name.length ≤ maxSingleStringBytes

/-- The limits of the decoder. -/
structure WireProtocol.Within (protocol : WireProtocol) : Prop where
  cleanupPath : protocol.cleanupPath.length ≤ 8
  completionCleanupPath : protocol.completionCleanupPath.length ≤ 8
  wakeCleanupPath : protocol.wakeCleanupPath.length ≤ 8
  roleCount : protocol.roles.length ≤ 64
  roles : ∀ role ∈ protocol.roles, role.Within
  text : protocol.text ≤ maxStringBytes

/-! ## What is read -/

section Sound

variable {context context' : ArtifactDecodeContext}

lemma readRoleKind_eq_ok {role : RoleKind} (h : readRoleKind context = .ok (role, context')) :
    ∃ word : UInt32, word.toUInt8 = role ∧ True ∧ Took context context' (appendU32 word) 0 := by
  obtain ⟨word, _, hword, hpure⟩ := bind_eq_ok.1 h
  cases pure_eq_ok.1 hpure
  exact ⟨word, rfl, trivial, readU32_eq_ok hword⟩

lemma sum_map_zero {γ : Type} (l : List γ) : (l.map fun _ => 0).sum = 0 := by
  induction l with
  | nil => rfl
  | cons _ _ ih => rw [List.map_cons, List.sum_cons, ih]

/-- The kinds of a path after their number. -/
lemma readPath_eq_ok {count : ℕ} {path : List RoleKind}
    (h : readMany readRoleKind count context = .ok (path, context')) :
    ∃ words : List UInt32, words.length = count ∧ words.map UInt32.toUInt8 = path ∧
      Took context context' (words.flatMap appendU32) 0 := by
  obtain ⟨words, hlength, hnarrow, -, htook⟩ :=
    readMany_eq_ok (fun {_ _ _} hrole => readRoleKind_eq_ok hrole) h
  rw [sum_map_zero] at htook
  exact ⟨words, hlength, hnarrow, htook⟩

lemma readCleanupPath_eq_ok {path : List RoleKind}
    (h : readCleanupPath context = .ok (path, context')) :
    ∃ words : List UInt32, words.length ≤ 8 ∧ words.map UInt32.toUInt8 = path ∧
      Took context context' (pathBytes words) 0 := by
  obtain ⟨count, _, hcount, hpath⟩ := bind_eq_ok.1 h
  obtain ⟨hle, word, rfl, htook⟩ := readCount_eq_ok hcount
  obtain ⟨words, hlength, hnarrow, htook'⟩ := readPath_eq_ok hpath
  refine ⟨words, hlength ▸ hle, hnarrow, ?_⟩
  rw [pathBytes, hlength, UInt32.ofNat_toNat]
  exact htook.trans htook'

lemma readParameter_eq_ok {parameter : ForeignResourceParameterBinding}
    (h : readParameter context = .ok (parameter, context')) :
    ∃ wide : WireParameter, wide.narrow = parameter ∧ wide.name.length ≤ maxSingleStringBytes ∧
      Took context context' wide.bytes wide.name.length := by
  obtain ⟨kind, _, hkind, h₁⟩ := bind_eq_ok.1 h
  obtain ⟨parameterIndex, _, hindex, h₂⟩ := bind_eq_ok.1 h₁
  obtain ⟨name, _, hname, hpure⟩ := bind_eq_ok.1 h₂
  cases pure_eq_ok.1 hpure
  obtain ⟨hlength, htook⟩ := readString_eq_ok hname
  have hall := ((readU32_eq_ok hkind).trans (readU32_eq_ok hindex)).trans htook
  rw [Nat.zero_add] at hall
  exact ⟨⟨kind, parameterIndex, name⟩, rfl, hlength, hall⟩

lemma readRole_eq_ok {role : ForeignResourceRole}
    (h : readRole context = .ok (role, context')) :
    ∃ wide : WireRole, wide.narrow = role ∧ wide.Within ∧
      Took context context' wide.bytes wide.text := by
  obtain ⟨⟨kind, callableTypeIndex, quiescence, count⟩, _, hwords, h₁⟩ := bind_eq_ok.1 h
  obtain ⟨parameters, _, hparameters, hpure⟩ := bind_eq_ok.1 h₁
  cases pure_eq_ok.1 hpure
  obtain ⟨_, _, hkind, h₂⟩ := bind_eq_ok.1 (orError_eq_ok.1 hwords)
  obtain ⟨_, _, hcallable, h₃⟩ := bind_eq_ok.1 h₂
  obtain ⟨_, _, hquiescence, h₄⟩ := bind_eq_ok.1 h₃
  obtain ⟨_, _, hcount, hpure'⟩ := bind_eq_ok.1 h₄
  cases pure_eq_ok.1 hpure'
  obtain ⟨hle, word, rfl, htook⟩ := readCount_eq_ok hcount
  obtain ⟨wides, hlength, rfl, hvalid, htook'⟩ := readMany_eq_ok
    (fun {_ _ _} hparameter => readParameter_eq_ok (orError_eq_ok.1 hparameter)) hparameters
  refine ⟨⟨kind, callableTypeIndex, quiescence, wides⟩, rfl, ⟨hlength ▸ hle, hvalid⟩, ?_⟩
  have hall := ((((readU32_eq_ok hkind).trans (readU32_eq_ok hcallable)).trans
    (readU32_eq_ok hquiescence)).trans htook).trans htook'
  rw [Nat.zero_add] at hall
  rw [WireRole.bytes, hlength, UInt32.ofNat_toNat]
  exact hall

lemma projection_word {projection : UInt32} (h : projection ≤ 1) :
    projection = if decide (projection ≠ 0) = true then 1 else 0 := by
  rw [UInt32.le_iff_toNat_le] at h
  have hone : (1 : UInt32).toNat = 1 := rfl
  rw [hone] at h
  by_cases hzero : projection = 0
  · rw [if_neg (by simp [hzero]), hzero]
  · rw [if_pos (by simp [hzero])]
    have hne : projection.toNat ≠ 0 := fun heq => hzero (UInt32.toNat_inj.1 heq)
    apply UInt32.toNat_inj.1
    omega

/-- The words before the paths and the number of the roles of the first one. -/
lemma readHeader_eq_ok {header : ForeignResourceProtocol} {cleanupCount : ℕ}
    (h : readHeader context = .ok ((header, cleanupCount), context')) :
    ∃ invalidState authority word : UInt32,
      header = { header with
        invalidState := invalidState.toUInt8
        releaseAuthority := authority.toUInt8
        cleanupPath := []
        completionCleanupPath := []
        wakeCleanupPath := []
        roles := [] } ∧
      cleanupCount ≤ 8 ∧ word.toNat = cleanupCount ∧
      Took context context' (appendU32 header.semanticEpoch ++
        appendU32 (if header.completionProjection = true then 1 else 0) ++
        appendU32 header.callbackTypeIndex ++ appendU32 header.resourceTypeIndex ++
        appendU32 header.completionTypeIndex ++ appendU32 invalidState ++
        appendU64 header.invalidInteger.toUInt64 ++ appendU32 authority ++ appendU32 word) 0 := by
  obtain ⟨semanticEpoch, _, hepoch, h₁⟩ := bind_eq_ok.1 h
  obtain ⟨projection, _, hprojection, h₂⟩ := bind_eq_ok.1 h₁
  obtain ⟨_, _, hrequire, h₃⟩ := bind_eq_ok.1 h₂
  obtain ⟨callbackTypeIndex, _, hcallback, h₄⟩ := bind_eq_ok.1 h₃
  obtain ⟨resourceTypeIndex, _, hresource, h₅⟩ := bind_eq_ok.1 h₄
  obtain ⟨completionTypeIndex, _, hcompletion, h₆⟩ := bind_eq_ok.1 h₅
  obtain ⟨invalidState, _, hstate, h₇⟩ := bind_eq_ok.1 h₆
  obtain ⟨invalidInteger, _, hinteger, h₈⟩ := bind_eq_ok.1 h₇
  obtain ⟨authority, _, hauthority, h₉⟩ := bind_eq_ok.1 h₈
  obtain ⟨count, _, hcount, hpure⟩ := bind_eq_ok.1 h₉
  obtain ⟨hle, heq⟩ := require_eq_ok.1 hrequire
  cases heq
  cases pure_eq_ok.1 hpure
  obtain ⟨hlimit, word, rfl, htook⟩ := readCount_eq_ok hcount
  refine ⟨invalidState, authority, word, rfl, hlimit, rfl, ?_⟩
  have hall := (((((((readU32_eq_ok hepoch).trans (readU32_eq_ok hprojection)).trans
    (readU32_eq_ok hcallback)).trans (readU32_eq_ok hresource)).trans
    (readU32_eq_ok hcompletion)).trans (readU32_eq_ok hstate)).trans
    (readU64_eq_ok hinteger)).trans (readU32_eq_ok hauthority)
  rw [projection_word (of_decide_eq_true hle)] at hall
  exact hall.trans htook

/-- Bytes that are read spell a row of words within the limits. -/
theorem readProtocol_eq_ok {protocol : ForeignResourceProtocol} {bytes : Bytes}
    (h : readProtocol { rest := bytes } = .ok (protocol, context')) :
    ∃ wide : WireProtocol, wide.narrow = protocol ∧ wide.Within ∧
      bytes = wide.bytes ++ context'.rest := by
  obtain ⟨⟨header, cleanupCount⟩, _, hheader, h₁⟩ := bind_eq_ok.1 h
  obtain ⟨cleanupPath, _, hcleanup, h₂⟩ := bind_eq_ok.1 h₁
  obtain ⟨completionCleanupPath, _, hcompletion, h₃⟩ := bind_eq_ok.1 h₂
  obtain ⟨wakeCleanupPath, _, hwake, h₄⟩ := bind_eq_ok.1 h₃
  obtain ⟨roleCount, _, hcount, h₅⟩ := bind_eq_ok.1 h₄
  obtain ⟨roles, _, hroles, hpure⟩ := bind_eq_ok.1 h₅
  cases pure_eq_ok.1 hpure
  obtain ⟨invalidState, authority, word, hfields, hlimit, rfl, htook₁⟩ :=
    readHeader_eq_ok (orError_eq_ok.1 hheader)
  obtain ⟨cleanups, hcleanups, rfl, htook₂⟩ := readPath_eq_ok (orError_eq_ok.1 hcleanup)
  obtain ⟨completions, hcompletions, rfl, htook₃⟩ :=
    readCleanupPath_eq_ok (orError_eq_ok.1 hcompletion)
  obtain ⟨wakes, hwakes, rfl, htook₄⟩ := readCleanupPath_eq_ok (orError_eq_ok.1 hwake)
  obtain ⟨hroleLimit, roleWord, rfl, htook₅⟩ := readCount_eq_ok (orError_eq_ok.1 hcount)
  obtain ⟨wides, hlength, rfl, hvalid, htook₆⟩ :=
    readMany_eq_ok (fun {_ _ _} hrole => readRole_eq_ok hrole) hroles
  have hall := ((((htook₁.trans htook₂).trans htook₃).trans htook₄).trans htook₅).trans htook₆
  let wide : WireProtocol :=
    { semanticEpoch := header.semanticEpoch
      completionProjection := header.completionProjection
      callbackTypeIndex := header.callbackTypeIndex
      resourceTypeIndex := header.resourceTypeIndex
      completionTypeIndex := header.completionTypeIndex
      invalidState := invalidState
      invalidInteger := header.invalidInteger
      releaseAuthority := authority
      cleanupPath := cleanups
      completionCleanupPath := completions
      wakeCleanupPath := wakes
      roles := wides }
  have hbytes : wide.bytes = appendU32 header.semanticEpoch ++
      appendU32 (if header.completionProjection = true then 1 else 0) ++
      appendU32 header.callbackTypeIndex ++ appendU32 header.resourceTypeIndex ++
      appendU32 header.completionTypeIndex ++ appendU32 invalidState ++
      appendU64 header.invalidInteger.toUInt64 ++ appendU32 authority ++ appendU32 word ++
      cleanups.flatMap appendU32 ++ pathBytes completions ++ pathBytes wakes ++
      appendU32 roleWord ++ wides.flatMap WireRole.bytes := by
    rw [WireProtocol.bytes, pathBytes, hcleanups, hlength, UInt32.ofNat_toNat, UInt32.ofNat_toNat,
      ← List.append_assoc _ (appendU32 word)]
  refine ⟨wide, ?_, ⟨hcleanups ▸ hlimit, hcompletions, hwakes, hlength ▸ hroleLimit, hvalid, ?_⟩, ?_⟩
  · rw [hfields]
    rfl
  · have hlimit := hall.limit (Nat.zero_le _)
    rw [hall.text] at hlimit
    simp only [Nat.zero_add] at hlimit
    exact hlimit
  · rw [hbytes]
    exact hall.rest

end Sound

/-! ## Rows of words within the limits are read -/

section Complete

variable {rest : Bytes} {nodes text : ℕ}

lemma readBytes_append (bytes : Bytes) :
    readBytes bytes.length ⟨bytes ++ rest, nodes, text⟩ = .ok (bytes, ⟨rest, nodes, text⟩) := by
  rw [readBytes, if_neg, List.take_left, List.drop_left]
  rw [List.length_append]
  omega

lemma readU32_append (value : UInt32) :
    readU32 ⟨appendU32 value ++ rest, nodes, text⟩ = .ok (value, ⟨rest, nodes, text⟩) := by
  have hbytes := @readBytes_append rest nodes text (appendU32 value)
  rw [length_appendU32] at hbytes
  rw [readU32, bind_of_ok hbytes, ofNat_appendU32]
  rfl

lemma readU64_append (value : UInt64) :
    readU64 ⟨appendU64 value ++ rest, nodes, text⟩ = .ok (value, ⟨rest, nodes, text⟩) := by
  have hbytes := @readBytes_append rest nodes text (appendU64 value)
  rw [show (appendU64 value).length = 8 from Codec.length_littleEndian _ _] at hbytes
  rw [readU64, bind_of_ok hbytes, ofNat_appendU64]
  rfl

lemma consumeNodes_ok {count : ℕ} (h : nodes + count ≤ maxNodes) :
    consumeNodes count ⟨rest, nodes, text⟩ = .ok ((), ⟨rest, nodes + count, text⟩) := by
  rw [consumeNodes, if_neg]
  show ¬count > maxNodes - nodes
  omega

lemma require_ok {condition : Bool} {context : ArtifactDecodeContext} (h : condition = true) :
    require condition context = .ok ((), context) := if_pos h

lemma remaining_ok (context : ArtifactDecodeContext) :
    remaining context = .ok (context.rest.length, context) := rfl

lemma consumeString_ok {size : ℕ} (hsingle : size ≤ maxSingleStringBytes)
    (htext : text + size ≤ maxStringBytes) (hnodes : nodes + 1 ≤ maxNodes) :
    consumeString size ⟨rest, nodes, text⟩ = .ok ((), ⟨rest, nodes + 1, text + size⟩) := by
  have hall : ¬size > maxStringBytes - text := by omega
  rw [consumeString, if_neg hsingle.not_gt, if_neg hall, consumeNodes_ok hnodes]

lemma toNat_length {length limit : ℕ} (h : length ≤ limit) (hlimit : limit < 2 ^ 32) :
    (UInt32.ofNat length).toNat = length :=
  UInt32.toNat_ofNat_of_lt' (Nat.lt_of_le_of_lt h hlimit)

lemma readString_append {value : Bytes} (hsingle : value.length ≤ maxSingleStringBytes)
    (htext : text + value.length ≤ maxStringBytes) (hnodes : nodes + 1 ≤ maxNodes) :
    readString ⟨appendField value ++ rest, nodes, text⟩ =
      .ok (value, ⟨rest, nodes + 1, text + value.length⟩) := by
  have hsize := toNat_length hsingle (by decide)
  have hrequire : decide ((UInt32.ofNat value.length).toNat ≤ (value ++ rest).length) = true := by
    rw [hsize, List.length_append]
    exact decide_eq_true (Nat.le_add_right _ _)
  rw [readString, appendField, List.append_assoc, bind_of_ok (readU32_append _),
    bind_of_ok (remaining_ok _), bind_of_ok (require_ok hrequire), hsize,
    bind_of_ok (consumeString_ok hsingle htext hnodes), readBytes_append]

lemma readCount_append {count limit : ℕ} (hcount : count ≤ limit) (hlimit : limit < 2 ^ 32)
    (hnodes : nodes + count ≤ maxNodes) :
    readCount limit ⟨appendU32 (UInt32.ofNat count) ++ rest, nodes, text⟩ =
      .ok (count, ⟨rest, nodes + count, text⟩) := by
  have hsize := toNat_length hcount hlimit
  rw [readCount, bind_of_ok (readU32_append _), hsize,
    bind_of_ok (require_ok (decide_eq_true hcount)), bind_of_ok (consumeNodes_ok hnodes)]
  rfl

/-- Readings one after the other, each of which needs what it takes from the account. -/
lemma readMany_append {α γ : Type} {reader : Reader α} {narrow : γ → α} {bytes : γ → Bytes}
    {nodeCost textCost : γ → ℕ} {wides : List γ}
    (hreader : ∀ wide ∈ wides, ∀ {rest : Bytes} {nodes text : ℕ},
      nodes + nodeCost wide ≤ maxNodes → text + textCost wide ≤ maxStringBytes →
      reader ⟨bytes wide ++ rest, nodes, text⟩ =
        .ok (narrow wide, ⟨rest, nodes + nodeCost wide, text + textCost wide⟩))
    (hnodes : nodes + (wides.map nodeCost).sum ≤ maxNodes)
    (htext : text + (wides.map textCost).sum ≤ maxStringBytes) :
    readMany reader wides.length ⟨wides.flatMap bytes ++ rest, nodes, text⟩ =
      .ok (wides.map narrow,
        ⟨rest, nodes + (wides.map nodeCost).sum, text + (wides.map textCost).sum⟩) := by
  induction wides generalizing nodes text with
  | nil => rfl
  | cons wide wides ih =>
    rw [List.map_cons, List.sum_cons] at hnodes htext
    have hfirst := @hreader wide (.head _) (wides.flatMap bytes ++ rest) nodes text
      (show nodes + nodeCost wide ≤ maxNodes by omega)
      (show text + textCost wide ≤ maxStringBytes by omega)
    have hrest := ih (fun other hother => hreader other (.tail _ hother))
      (show nodes + nodeCost wide + _ ≤ maxNodes by omega)
      (show text + textCost wide + _ ≤ maxStringBytes by omega)
    rw [List.length_cons, readMany, List.flatMap_cons, List.append_assoc, bind_of_ok hfirst,
      bind_of_ok hrest, List.map_cons, List.map_cons, List.map_cons, List.sum_cons, List.sum_cons,
      ← Nat.add_assoc, ← Nat.add_assoc]
    rfl

lemma readRoleKind_append (word : UInt32) :
    readRoleKind ⟨appendU32 word ++ rest, nodes, text⟩ = .ok (word.toUInt8, ⟨rest, nodes, text⟩) := by
  rw [readRoleKind, bind_of_ok (readU32_append _)]
  rfl

lemma readPath_append {words : List UInt32} (hnodes : nodes ≤ maxNodes)
    (htext : text ≤ maxStringBytes) :
    readMany readRoleKind words.length ⟨words.flatMap appendU32 ++ rest, nodes, text⟩ =
      .ok (words.map UInt32.toUInt8, ⟨rest, nodes, text⟩) := by
  have h := @readMany_append rest nodes text _ _ readRoleKind UInt32.toUInt8 appendU32
    (fun _ => 0) (fun _ => 0) words (fun word _ => fun {_ _ _} _ _ => readRoleKind_append word)
  rw [sum_map_zero] at h
  exact h hnodes htext

lemma readCleanupPath_append {words : List UInt32} (hlength : words.length ≤ 8)
    (hnodes : nodes + words.length ≤ maxNodes) (htext : text ≤ maxStringBytes) :
    readCleanupPath ⟨pathBytes words ++ rest, nodes, text⟩ =
      .ok (words.map UInt32.toUInt8, ⟨rest, nodes + words.length, text⟩) := by
  rw [readCleanupPath, pathBytes, List.append_assoc,
    bind_of_ok (readCount_append hlength (by decide) hnodes), readPath_append hnodes htext]

lemma readParameter_append {wide : WireParameter} (hsingle : wide.name.length ≤ maxSingleStringBytes)
    (hnodes : nodes + 1 ≤ maxNodes) (htext : text + wide.name.length ≤ maxStringBytes) :
    readParameter ⟨wide.bytes ++ rest, nodes, text⟩ =
      .ok (wide.narrow, ⟨rest, nodes + 1, text + wide.name.length⟩) := by
  rw [readParameter, WireParameter.bytes, List.append_assoc, List.append_assoc,
    bind_of_ok (readU32_append _), bind_of_ok (readU32_append _),
    bind_of_ok (readString_append hsingle htext hnodes)]
  rfl

lemma orError_ok {α : Type} {error : String} {reader : Reader α} {context : ArtifactDecodeContext}
    {result : α × ArtifactDecodeContext} (h : reader context = .ok result) :
    orError error reader context = .ok result :=
  orError_eq_ok.2 h

/-- The nodes that are accounted for a role's parameters. -/
def WireRole.nodeCount (role : WireRole) : ℕ := 2 * role.parameters.length

lemma sum_map_one {γ : Type} (l : List γ) : (l.map fun _ => 1).sum = l.length := by
  induction l with
  | nil => rfl
  | cons _ _ ih =>
    rw [List.map_cons, List.sum_cons, ih, List.length_cons]
    omega

lemma readRole_append {wide : WireRole} (hwithin : wide.Within)
    (hnodes : nodes + wide.nodeCount ≤ maxNodes) (htext : text + wide.text ≤ maxStringBytes) :
    readRole ⟨wide.bytes ++ rest, nodes, text⟩ =
      .ok (wide.narrow, ⟨rest, nodes + wide.nodeCount, text + wide.text⟩) := by
  unfold WireRole.nodeCount at hnodes ⊢
  have hcount := @readCount_append (wide.parameters.flatMap WireParameter.bytes ++ rest) nodes text
    wide.parameters.length 64 hwithin.parameters (by decide) (by omega)
  have hsum := sum_map_one wide.parameters
  have hparameters := @readMany_append rest (nodes + wide.parameters.length) text _ _
    (orError "foreign resource parameter encoding is truncated" readParameter) WireParameter.narrow
    WireParameter.bytes (fun _ => 1) (fun parameter => parameter.name.length) wide.parameters
    (fun parameter hmem => fun {_ _ _} hnodes htext =>
      orError_ok (readParameter_append (hwithin.names parameter hmem) hnodes htext))
    (by omega) htext
  have hnodes' : nodes + 2 * wide.parameters.length =
      nodes + wide.parameters.length + wide.parameters.length := by omega
  rw [hsum] at hparameters
  have hwords : readRoleWords ⟨wide.bytes ++ rest, nodes, text⟩ =
      .ok ((wide.kind, wide.callableTypeIndex, wide.quiescence, wide.parameters.length),
        ⟨wide.parameters.flatMap WireParameter.bytes ++ rest, nodes + wide.parameters.length,
          text⟩) := by
    rw [readRoleWords, WireRole.bytes]
    simp only [List.append_assoc]
    rw [bind_of_ok (readU32_append _), bind_of_ok (readU32_append _),
      bind_of_ok (readU32_append _), bind_of_ok hcount]
    rfl
  rw [readRole, bind_of_ok (orError_ok hwords), hnodes']
  exact (bind_of_ok hparameters).trans rfl

/-- The nodes that are accounted for. -/
def WireProtocol.nodeCount (protocol : WireProtocol) : ℕ :=
  protocol.cleanupPath.length + protocol.completionCleanupPath.length +
    protocol.wakeCleanupPath.length + protocol.roles.length +
    (protocol.roles.map WireRole.nodeCount).sum

/-- The lists are so short that the nodes are always within the limit. -/
lemma WireProtocol.Within.nodeCount_le {wide : WireProtocol} (h : wide.Within) :
    wide.nodeCount ≤ maxNodes := by
  have hroles : (wide.roles.map WireRole.nodeCount).sum ≤
      (wide.roles.map WireRole.nodeCount).length • 128 := by
    apply List.sum_le_card_nsmul
    intro count hcount
    obtain ⟨role, hrole, rfl⟩ := List.mem_map.1 hcount
    have hparameters := (h.roles role hrole).parameters
    unfold WireRole.nodeCount
    omega
  rw [List.length_map, smul_eq_mul] at hroles
  have h₁ := h.cleanupPath
  have h₂ := h.completionCleanupPath
  have h₃ := h.wakeCleanupPath
  have h₄ := h.roleCount
  unfold WireProtocol.nodeCount maxNodes
  omega

/-- The words before the paths, with the number of the roles of the first one. -/
lemma readHeader_append {wide : WireProtocol} (hcleanup : wide.cleanupPath.length ≤ 8)
    (hnodes : nodes + wide.cleanupPath.length ≤ maxNodes) :
    readHeader ⟨appendU32 wide.semanticEpoch ++
        (appendU32 (if wide.completionProjection = true then 1 else 0) ++
        (appendU32 wide.callbackTypeIndex ++ (appendU32 wide.resourceTypeIndex ++
        (appendU32 wide.completionTypeIndex ++ (appendU32 wide.invalidState ++
        (appendU64 wide.invalidInteger.toUInt64 ++ (appendU32 wide.releaseAuthority ++
        (appendU32 (UInt32.ofNat wide.cleanupPath.length) ++ rest)))))))), nodes, text⟩ =
      .ok (({ wide.narrow with
          cleanupPath := [], completionCleanupPath := [], wakeCleanupPath := [], roles := [] },
        wide.cleanupPath.length), ⟨rest, nodes + wide.cleanupPath.length, text⟩) := by
  have hprojection : decide ((if wide.completionProjection = true then 1 else 0 : UInt32) ≤ 1) =
      true := by
    split <;> rfl
  have hbool : decide ((if wide.completionProjection = true then 1 else 0 : UInt32) ≠ 0) =
      wide.completionProjection := by
    cases wide.completionProjection <;> rfl
  rw [readHeader, bind_of_ok (readU32_append _), bind_of_ok (readU32_append _),
    bind_of_ok (require_ok hprojection), bind_of_ok (readU32_append _),
    bind_of_ok (readU32_append _), bind_of_ok (readU32_append _), bind_of_ok (readU32_append _),
    bind_of_ok (readU64_append _), bind_of_ok (readU32_append _),
    bind_of_ok (readCount_append hcleanup (by decide) hnodes), hbool]
  rfl

/-- A row of words within the limits is read. -/
theorem readProtocol_append {wide : WireProtocol} (h : wide.Within) :
    ∃ nodes text, readProtocol { rest := wide.bytes } = .ok (wide.narrow, ⟨[], nodes, text⟩) := by
  have hnodes := h.nodeCount_le
  have htext := h.text
  unfold WireProtocol.nodeCount at hnodes
  have hheader := @readHeader_append (wide.cleanupPath.flatMap appendU32 ++
    (pathBytes wide.completionCleanupPath ++ (pathBytes wide.wakeCleanupPath ++
      (appendU32 (UInt32.ofNat wide.roles.length) ++ wide.roles.flatMap WireRole.bytes))))
    0 0 wide h.cleanupPath (by omega)
  have hcleanup := @readPath_append (pathBytes wide.completionCleanupPath ++
    (pathBytes wide.wakeCleanupPath ++
      (appendU32 (UInt32.ofNat wide.roles.length) ++ wide.roles.flatMap WireRole.bytes)))
    (0 + wide.cleanupPath.length) 0 wide.cleanupPath (by omega) (Nat.zero_le _)
  have hcompletion := @readCleanupPath_append (pathBytes wide.wakeCleanupPath ++
      (appendU32 (UInt32.ofNat wide.roles.length) ++ wide.roles.flatMap WireRole.bytes))
    (0 + wide.cleanupPath.length) 0 wide.completionCleanupPath h.completionCleanupPath (by omega)
    (Nat.zero_le _)
  have hwake := @readCleanupPath_append
    (appendU32 (UInt32.ofNat wide.roles.length) ++ wide.roles.flatMap WireRole.bytes)
    (0 + wide.cleanupPath.length + wide.completionCleanupPath.length) 0 wide.wakeCleanupPath
    h.wakeCleanupPath (by omega) (Nat.zero_le _)
  have hcount := @readCount_append (wide.roles.flatMap WireRole.bytes)
    (0 + wide.cleanupPath.length + wide.completionCleanupPath.length + wide.wakeCleanupPath.length) 0
    wide.roles.length 64 h.roleCount (by decide) (by omega)
  have hroles := @readMany_append []
    (0 + wide.cleanupPath.length + wide.completionCleanupPath.length + wide.wakeCleanupPath.length +
      wide.roles.length) 0 _ _ readRole WireRole.narrow WireRole.bytes WireRole.nodeCount
    WireRole.text wide.roles (fun role hrole => fun {_ _ _} hnodes htext =>
      readRole_append (h.roles role hrole) hnodes htext) (by omega)
    (by rw [Nat.zero_add]; exact htext)
  rw [List.append_nil] at hroles
  refine ⟨0 + wide.cleanupPath.length + wide.completionCleanupPath.length +
    wide.wakeCleanupPath.length + wide.roles.length + (wide.roles.map WireRole.nodeCount).sum,
    0 + (wide.roles.map WireRole.text).sum, ?_⟩
  rw [readProtocol, WireProtocol.bytes]
  simp only [pathBytes, List.append_assoc] at hheader hcleanup hcompletion hwake ⊢
  rw [bind_of_ok (orError_ok hheader)]
  refine (bind_of_ok (orError_ok hcleanup)).trans ?_
  refine (bind_of_ok (orError_ok hcompletion)).trans ?_
  refine (bind_of_ok (orError_ok hwake)).trans ?_
  refine (bind_of_ok (orError_ok hcount)).trans ?_
  exact (bind_of_ok hroles).trans rfl

end Complete

/-! ## Sizes -/

lemma length_flatMap_le {γ : Type} {bytes : γ → Bytes} {cost : γ → ℕ} {size : ℕ} {l : List γ}
    (h : ∀ a ∈ l, (bytes a).length ≤ size + cost a) :
    (l.flatMap bytes).length ≤ size * l.length + (l.map cost).sum := by
  induction l with
  | nil => exact Nat.zero_le _
  | cons a l ih =>
    have hfirst := h a (.head _)
    have hrest := ih fun b hb => h b (.tail _ hb)
    rw [List.flatMap_cons, List.length_append, List.map_cons, List.sum_cons, List.length_cons,
      Nat.mul_succ]
    omega

lemma length_pathBytes_le {path : List UInt32} (h : path.length ≤ 8) :
    (pathBytes path).length ≤ 36 := by
  have hall := @length_flatMap_le _ appendU32 (fun _ => 0) 4 path
    fun word _ => (length_appendU32 word).le
  rw [sum_map_zero] at hall
  rw [pathBytes, List.length_append, length_appendU32]
  omega

lemma WireRole.Within.length_bytes_le {role : WireRole} (h : role.Within) :
    role.bytes.length ≤ 784 + role.text := by
  have hparameters := @length_flatMap_le _ WireParameter.bytes
    (fun parameter => parameter.name.length) 12 role.parameters fun parameter _ => by
      simp only [WireParameter.bytes, appendField, List.length_append, length_appendU32]
      omega
  have hcount := h.parameters
  unfold WireRole.text
  simp only [WireRole.bytes, List.length_append, length_appendU32]
  omega

/-- What is within the limits is not too long an input. -/
lemma WireProtocol.Within.length_bytes_le {wide : WireProtocol} (h : wide.Within) :
    wide.bytes.length ≤ maxInputBytes := by
  have hroles := @length_flatMap_le _ WireRole.bytes WireRole.text 784 wide.roles
    fun role hrole => (h.roles role hrole).length_bytes_le
  have hinteger : (appendU64 wide.invalidInteger.toUInt64).length = 8 :=
    Codec.length_littleEndian _ _
  have h₁ := length_pathBytes_le h.cleanupPath
  have h₂ := length_pathBytes_le h.completionCleanupPath
  have h₃ := length_pathBytes_le h.wakeCleanupPath
  have h₄ := h.roleCount
  have htext := h.text
  unfold WireProtocol.text maxStringBytes at htext
  unfold maxInputBytes
  simp only [WireProtocol.bytes, List.length_append, length_appendU32, hinteger]
  omega

/-! ## Protocols as rows of words -/

def ForeignResourceParameterBinding.widen (parameter : ForeignResourceParameterBinding) :
    WireParameter where
  kind := parameter.kind.toUInt32
  parameterIndex := parameter.parameterIndex
  name := parameter.name

def ForeignResourceRole.widen (role : ForeignResourceRole) : WireRole where
  kind := role.kind.toUInt32
  callableTypeIndex := role.callableTypeIndex
  quiescence := role.quiescence.toUInt32
  parameters := role.parameters.map ForeignResourceParameterBinding.widen

def ForeignResourceProtocol.widen (protocol : ForeignResourceProtocol) : WireProtocol where
  semanticEpoch := protocol.semanticEpoch
  completionProjection := protocol.completionProjection
  callbackTypeIndex := protocol.callbackTypeIndex
  resourceTypeIndex := protocol.resourceTypeIndex
  completionTypeIndex := protocol.completionTypeIndex
  invalidState := protocol.invalidState.toUInt32
  invalidInteger := protocol.invalidInteger
  releaseAuthority := protocol.releaseAuthority.toUInt32
  cleanupPath := protocol.cleanupPath.map UInt8.toUInt32
  completionCleanupPath := protocol.completionCleanupPath.map UInt8.toUInt32
  wakeCleanupPath := protocol.wakeCleanupPath.map UInt8.toUInt32
  roles := protocol.roles.map ForeignResourceRole.widen

/-- The encoding is that of the words. -/
lemma encode_eq_bytes (protocol : ForeignResourceProtocol) :
    encodeForeignResourceProtocol protocol = protocol.widen.bytes := by
  have hpath : ∀ path : List RoleKind, appendPath path = pathBytes (path.map UInt8.toUInt32) := by
    intro path
    rw [appendPath, pathBytes, List.length_map, List.flatMap_map]
  have hparameters : ∀ parameters : List ForeignResourceParameterBinding,
      (parameters.map ForeignResourceParameterBinding.widen).flatMap WireParameter.bytes =
        parameters.flatMap appendParameter := fun parameters => List.flatMap_map _ _ _
  have hroles : (protocol.roles.map ForeignResourceRole.widen).flatMap WireRole.bytes =
      protocol.roles.flatMap appendRole := by
    rw [List.flatMap_map]
    refine List.flatMap_congr fun role _ => ?_
    rw [WireRole.bytes, ForeignResourceRole.widen, hparameters, List.length_map]
    rfl
  rw [encodeForeignResourceProtocol, WireProtocol.bytes, hpath, hpath, hpath,
    ForeignResourceProtocol.widen, hroles, List.length_map]

lemma toUInt8_comp_toUInt32 : UInt32.toUInt8 ∘ UInt8.toUInt32 = id := by
  funext byte
  exact UInt8.toUInt8_toUInt32 byte

lemma narrow_widen_parameter (parameter : ForeignResourceParameterBinding) :
    parameter.widen.narrow = parameter := by
  simp [ForeignResourceParameterBinding.widen, WireParameter.narrow]

lemma narrow_widen_role (role : ForeignResourceRole) : role.widen.narrow = role := by
  have hparameters : WireParameter.narrow ∘ ForeignResourceParameterBinding.widen = id :=
    funext narrow_widen_parameter
  simp [ForeignResourceRole.widen, WireRole.narrow, hparameters]

/-- Bytes are kept. -/
lemma narrow_widen (protocol : ForeignResourceProtocol) : protocol.widen.narrow = protocol := by
  have hroles : WireRole.narrow ∘ ForeignResourceRole.widen = id := funext narrow_widen_role
  simp [ForeignResourceProtocol.widen, WireProtocol.narrow, hroles, toUInt8_comp_toUInt32]

/-- The words of the enumerations are bytes. -/
structure WireRole.Lossless (role : WireRole) : Prop where
  kind : role.kind < 256
  quiescence : role.quiescence < 256
  parameters : ∀ parameter ∈ role.parameters, parameter.kind < 256

structure WireProtocol.Lossless (protocol : WireProtocol) : Prop where
  invalidState : protocol.invalidState < 256
  releaseAuthority : protocol.releaseAuthority < 256
  cleanupPath : ∀ role ∈ protocol.cleanupPath, role < 256
  completionCleanupPath : ∀ role ∈ protocol.completionCleanupPath, role < 256
  wakeCleanupPath : ∀ role ∈ protocol.wakeCleanupPath, role < 256
  roles : ∀ role ∈ protocol.roles, role.Lossless

lemma toUInt32_toUInt8 {word : UInt32} (h : word < 256) : word.toUInt8.toUInt32 = word := by
  rw [UInt32.lt_iff_toNat_lt] at h
  apply UInt32.toNat_inj.1
  rw [UInt8.toNat_toUInt32, UInt32.toNat_toUInt8]
  exact Nat.mod_eq_of_lt h

lemma toUInt32_lt (byte : UInt8) : byte.toUInt32 < 256 := by
  rw [UInt32.lt_iff_toNat_lt, UInt8.toNat_toUInt32]
  exact byte.toNat_lt

lemma map_toUInt32_toUInt8 {path : List UInt32} (h : ∀ word ∈ path, word < 256) :
    (path.map UInt32.toUInt8).map UInt8.toUInt32 = path := by
  rw [List.map_map]
  exact (List.map_congr_left fun word hword => toUInt32_toUInt8 (h word hword)).trans path.map_id

lemma WireRole.Lossless.widen_narrow {role : WireRole} (h : role.Lossless) :
    role.narrow.widen = role := by
  have hparameters : (role.parameters.map WireParameter.narrow).map
      ForeignResourceParameterBinding.widen = role.parameters := by
    rw [List.map_map]
    refine (List.map_congr_left fun parameter hparameter => ?_).trans role.parameters.map_id
    simp [ForeignResourceParameterBinding.widen, WireParameter.narrow,
      toUInt32_toUInt8 (h.parameters parameter hparameter)]
  rw [ForeignResourceRole.widen, WireRole.narrow, hparameters, toUInt32_toUInt8 h.kind,
    toUInt32_toUInt8 h.quiescence]

/-- Words that are bytes are kept. -/
lemma WireProtocol.Lossless.widen_narrow {wide : WireProtocol} (h : wide.Lossless) :
    wide.narrow.widen = wide := by
  have hroles : (wide.roles.map WireRole.narrow).map ForeignResourceRole.widen = wide.roles := by
    rw [List.map_map]
    exact (List.map_congr_left fun role hrole => (h.roles role hrole).widen_narrow).trans
      wide.roles.map_id
  rw [ForeignResourceProtocol.widen, WireProtocol.narrow, hroles,
    toUInt32_toUInt8 h.invalidState, toUInt32_toUInt8 h.releaseAuthority,
    map_toUInt32_toUInt8 h.cleanupPath, map_toUInt32_toUInt8 h.completionCleanupPath,
    map_toUInt32_toUInt8 h.wakeCleanupPath]

lemma lossless_widen (protocol : ForeignResourceProtocol) : protocol.widen.Lossless := by
  have hpath : ∀ path : List UInt8, ∀ word ∈ path.map UInt8.toUInt32, word < 256 := by
    intro path
    rw [List.forall_mem_map]
    exact fun byte _ => toUInt32_lt byte
  refine ⟨toUInt32_lt _, toUInt32_lt _, hpath _, hpath _, hpath _, ?_⟩
  show ∀ role ∈ protocol.roles.map ForeignResourceRole.widen, role.Lossless
  rw [List.forall_mem_map]
  intro role _
  refine ⟨toUInt32_lt _, toUInt32_lt _, ?_⟩
  show ∀ parameter ∈ role.parameters.map ForeignResourceParameterBinding.widen, parameter.kind < 256
  rw [List.forall_mem_map]
  exact fun parameter _ => toUInt32_lt _

end ForeignProtocol

end Chtholly
