import Chtholly.Scanning.Text
import Chtholly.Registry.ManifestToml

/-!
# The trust state of a registry

For every registry that a machine has used, one file keeps the versions and the digests of the last
trust metadata that was accepted, and the time of it.  The file is replaced as a whole.

## Main definitions

* `Registry.TrustState` — what is kept.
* `Registry.stateText`, `Registry.loadState` — the text of a state, and the reader.
* `Registry.checkRollback` — the comparison of new metadata with what was kept.
* `Registry.TrustState.Precedes` — nothing is rolled back from one state to another.

## Main results

* `Registry.loadState_stateText` — a state that was written is the state that is read.
* `Registry.precedes_of_checkRollback` — what passes the three comparisons rolls nothing back.
-/

set_option autoImplicit false

namespace Chtholly

namespace Registry

structure TrustState where
  rootVersion : UInt64 := 0
  rootSha256 : Text := []
  snapshotVersion : UInt64 := 0
  snapshotSha256 : Text := []
  timestampVersion : UInt64 := 0
  timestampSha256 : Text := []
  lastVerifiedTime : Int64 := 0

/-- A signed number, as the stream prints it. -/
def signedDecimal (n : ℤ) : Text :=
  if n < 0 then '-' :: decimal n.natAbs else decimal n.natAbs

def trustStateFormat : Text := "chtholly-registry-trust-state-v1".toList

/-- The fields of a state, in the order of its text. -/
def TrustState.fields (state : TrustState) : List (Text × Text) :=
  [("root-version".toList, decimal state.rootVersion.toNat),
    ("root-sha256".toList, state.rootSha256),
    ("snapshot-version".toList, decimal state.snapshotVersion.toNat),
    ("snapshot-sha256".toList, state.snapshotSha256),
    ("timestamp-version".toList, decimal state.timestampVersion.toNat),
    ("timestamp-sha256".toList, state.timestampSha256),
    ("last-verified-time".toList, signedDecimal state.lastVerifiedTime.toInt)]

/-- The line of a field of a state, which has no length. -/
def stateLine (field : Text × Text) : Text := field.1 ++ '\t' :: field.2

/-- The last line of a state. -/
def endLine : Text := ['e', 'n', 'd']

/-- The text that `writeState` writes. -/
def stateText (state : TrustState) : Text :=
  trustStateFormat ++ '\n' :: ((state.fields.flatMap fun field => stateLine field ++ ['\n']) ++
    endLine ++ ['\n'])

/-- The fields up to the last line, which nothing follows. -/
def readFields (fields : List (Text × Text)) : List Text → Option (List (Text × Text))
  | [] => none
  | line :: rest =>
    if line = endLine then if rest = [] then some fields else none
    else
      (cut '\t' line).bind fun field =>
        if field.1 ∈ fields.map Prod.fst then none else readFields (fields ++ [field]) rest

/-- `unsigned_field`. -/
def unsignedField (fields : List (Text × Text)) (name : String) : Option UInt64 :=
  (fields.lookup name.toList).bind ManifestToml.parseUnsigned

/-- A digest of the state. -/
def digestField (fields : List (Text × Text)) (name : String) : Option Text :=
  (fields.lookup name.toList).filter isHexDigest

/-- The state of the fields. -/
def stateOfFields (fields : List (Text × Text)) : Option TrustState := do
  guard (fields.length = 7)
  let rootVersion ← unsignedField fields "root-version"
  let snapshotVersion ← unsignedField fields "snapshot-version"
  let timestampVersion ← unsignedField fields "timestamp-version"
  let lastTime ← unsignedField fields "last-verified-time"
  guard (lastTime.toNat < 2 ^ 63)
  let rootSha256 ← digestField fields "root-sha256"
  let snapshotSha256 ← digestField fields "snapshot-sha256"
  let timestampSha256 ← digestField fields "timestamp-sha256"
  return ⟨rootVersion, rootSha256, snapshotVersion, snapshotSha256, timestampVersion,
    timestampSha256, lastTime.toInt64⟩

/-- The state that a text gives. -/
def parseState (text : Text) : Option TrustState :=
  match lines text with
  | [] => none
  | header :: rest =>
    if header = trustStateFormat then (readFields [] rest).bind stateOfFields else none

/-- The state of a file: the first state when there is no file. -/
def loadState (path : Text) (file : Option Text) : Except String TrustState :=
  match file with
  | none => .ok {}
  | some text =>
    match parseState text with
    | some state => .ok state
    | none => .error ("invalid registry trust state: " ++ String.ofList path)

def checkRollback (name : String) (version : UInt64) (digest : Text) (previousVersion : UInt64)
    (previousDigest : Text) : Except String Unit :=
  if version < previousVersion ∨
      version = previousVersion ∧ previousVersion ≠ 0 ∧ digest ≠ previousDigest then
    .error ("registry " ++ name ++ " rollback or same-version equivocation detected")
  else .ok ()

/-! ## Reading what was written -/

/-- A state whose text can be read: digests are digests, and the time is not negative. -/
structure TrustState.Readable (state : TrustState) : Prop where
  root : isHexDigest state.rootSha256 = true
  snapshot : isHexDigest state.snapshotSha256 = true
  timestamp : isHexDigest state.timestampSha256 = true
  time : 0 ≤ state.lastVerifiedTime

/-- A text that can stand in a line of a state. -/
def plainText (text : Text) : Bool := text.all fun ch => ch != '\t' && ch != '\n'

lemma not_mem_of_plainText {text : Text} (h : plainText text = true) :
    '\t' ∉ text ∧ '\n' ∉ text := by
  simp only [plainText, List.all_eq_true, Bool.and_eq_true, bne_iff_ne] at h
  exact ⟨fun hm => (h _ hm).1 rfl, fun hm => (h _ hm).2 rfl⟩

lemma plainText_decimal (n : ℕ) : plainText (decimal n) = true := by
  rw [plainText, List.all_eq_true]
  intro ch hch
  have hdigit := isDigit_of_mem_decimal hch
  simp only [Bool.and_eq_true, bne_iff_ne]
  refine ⟨?_, ?_⟩ <;> rintro rfl <;> revert hdigit <;> decide

lemma plainText_of_isHexDigest {text : Text} (h : isHexDigest text = true) :
    plainText text = true := by
  rw [plainText, List.all_eq_true]
  intro ch hch
  simp only [isHexDigest, Bool.and_eq_true, List.all_eq_true] at h
  have hhex := h.2 ch hch
  simp only [Bool.and_eq_true, bne_iff_ne]
  refine ⟨?_, ?_⟩ <;> rintro rfl <;> revert hhex <;> decide

variable {fields : List (Text × Text)}

lemma readFields_lines {read : List (Text × Text)}
    (hplain : ∀ field ∈ fields, plainText field.1 = true ∧ plainText field.2 = true)
    (hdistinct : ((read ++ fields).map Prod.fst).Nodup) :
    readFields read (lines ((fields.flatMap fun field => stateLine field ++ ['\n']) ++
      endLine ++ ['\n'])) = some (read ++ fields) := by
  induction fields generalizing read with
  | nil =>
    have hend : lines (endLine ++ ['\n']) = [endLine] := by decide
    rw [List.flatMap_nil, List.nil_append, hend, readFields, if_pos rfl, if_pos rfl,
      List.append_nil]
  | cons field fields ih =>
    obtain ⟨hname, hvalue⟩ := hplain field (.head _)
    obtain ⟨htab, hbreak⟩ := not_mem_of_plainText hname
    obtain ⟨htab', hbreak'⟩ := not_mem_of_plainText hvalue
    have hline : '\n' ∉ stateLine field := by
      simp only [stateLine, List.mem_append, List.mem_cons, not_or]
      exact ⟨hbreak, by decide, hbreak'⟩
    have hend : stateLine field ≠ endLine := by
      intro heq
      have hmem : '\t' ∈ endLine := by
        rw [← heq, stateLine]
        simp
      revert hmem
      decide
    have hfresh : field.1 ∉ read.map Prod.fst := by
      rw [List.map_append, List.nodup_append] at hdistinct
      intro hmem
      exact hdistinct.2.2 _ hmem _ (.head _) rfl
    have hcut : cut '\t' (stateLine field) = some (field.1, field.2) := cut_append htab field.2
    have hsplit : (List.flatMap (fun field => stateLine field ++ ['\n']) (field :: fields)) ++
        endLine ++ ['\n'] = stateLine field ++ '\n' ::
          ((fields.flatMap fun field => stateLine field ++ ['\n']) ++ endLine ++ ['\n']) := by
      simp
    rw [hsplit, lines_append hline, readFields, if_neg hend, hcut, Option.bind_some,
      if_neg hfresh, ih (fun f hf => hplain f (.tail _ hf)) (by simpa using hdistinct)]
    simp

lemma signedDecimal_of_nonneg {time : Int64} (h : 0 ≤ time) :
    signedDecimal time.toInt = decimal time.toUInt64.toNat ∧ time.toUInt64.toNat < 2 ^ 63 := by
  have hint : time.toInt = (time.toUInt64.toNat : ℤ) := by
    rw [Int64.toNat_toUInt64_of_le h, Int64.toInt_eq_toNatClampNeg h]
  have hbound : time.toInt < 2 ^ 63 := Int64.toInt_lt time
  refine ⟨?_, by omega⟩
  rw [signedDecimal, if_neg (by omega), hint, Int.natAbs_natCast]

variable {name : String}

lemma unsignedField_eq {n : UInt64} (h : fields.lookup name.toList = some (decimal n.toNat)) :
    unsignedField fields name = some n := by
  rw [unsignedField, h, Option.bind_some, ManifestToml.parseUnsigned_decimal n.toNat_lt,
    UInt64.ofNat_toNat]

lemma digestField_eq {digest : Text} (h : fields.lookup name.toList = some digest)
    (hdigest : isHexDigest digest = true) : digestField fields name = some digest := by
  rw [digestField, h, Option.filter_some, if_pos hdigest]

variable {state : TrustState}

lemma stateOfFields_fields (h : state.Readable) : stateOfFields state.fields = some state := by
  obtain ⟨htime, hbound⟩ := signedDecimal_of_nonneg h.time
  have hlast : state.fields.lookup "last-verified-time".toList =
      some (decimal state.lastVerifiedTime.toUInt64.toNat) := by
    rw [← htime]
    rfl
  have hroot : unsignedField state.fields "root-version" = some state.rootVersion :=
    unsignedField_eq rfl
  have hsnapshot : unsignedField state.fields "snapshot-version" = some state.snapshotVersion :=
    unsignedField_eq rfl
  have htimestamp : unsignedField state.fields "timestamp-version" = some state.timestampVersion :=
    unsignedField_eq rfl
  have hrootDigest : digestField state.fields "root-sha256" = some state.rootSha256 :=
    digestField_eq rfl h.root
  have hsnapshotDigest : digestField state.fields "snapshot-sha256" = some state.snapshotSha256 :=
    digestField_eq rfl h.snapshot
  have htimestampDigest :
      digestField state.fields "timestamp-sha256" = some state.timestampSha256 :=
    digestField_eq rfl h.timestamp
  simp only [stateOfFields, Option.bind_eq_bind, Option.bind_eq_some_iff, Option.guard_eq_some',
    Option.pure_def, Option.some.injEq]
  exact ⟨(), rfl, _, hroot, _, hsnapshot, _, htimestamp, _, unsignedField_eq hlast, (), hbound, _,
    hrootDigest, _, hsnapshotDigest, _, htimestampDigest, rfl⟩

lemma plainText_fields (h : state.Readable) :
    ∀ field ∈ state.fields, plainText field.1 = true ∧ plainText field.2 = true := by
  have hnames : (state.fields.map Prod.fst).all plainText = true := by
    show (({} : TrustState).fields.map Prod.fst).all plainText = true
    decide
  intro field hfield
  refine ⟨List.all_eq_true.mp hnames _ (List.mem_map_of_mem (f := Prod.fst) hfield), ?_⟩
  simp only [TrustState.fields, List.mem_cons, List.not_mem_nil, or_false] at hfield
  rcases hfield with rfl | rfl | rfl | rfl | rfl | rfl | rfl
  · exact plainText_decimal _
  · exact plainText_of_isHexDigest h.root
  · exact plainText_decimal _
  · exact plainText_of_isHexDigest h.snapshot
  · exact plainText_decimal _
  · exact plainText_of_isHexDigest h.timestamp
  · show plainText (signedDecimal _) = true
    rw [(signedDecimal_of_nonneg h.time).1]
    exact plainText_decimal _

/-- A state that was written is the state that is read. -/
theorem loadState_stateText (h : state.Readable) (path : Text) :
    loadState path (some (stateText state)) = .ok state := by
  have hdistinct : (state.fields.map Prod.fst).Nodup := by
    show (({} : TrustState).fields.map Prod.fst).Nodup
    decide
  have hparse : parseState (stateText state) = some state := by
    rw [parseState, stateText, lines_append (by decide)]
    dsimp only
    rw [if_pos rfl, readFields_lines (plainText_fields h) hdistinct, List.nil_append,
      Option.bind_some, stateOfFields_fields h]
  rw [loadState, hparse]

/-- A state that is read has a time that is not negative. -/
lemma loadState_time {path : Text} {file : Option Text} (h : loadState path file = .ok state) :
    0 ≤ state.lastVerifiedTime := by
  cases file with
  | none =>
    obtain rfl := Except.ok.inj h
    exact Int64.le_refl 0
  | some text =>
    simp only [loadState] at h
    split at h
    · rename_i parsed hparse
      obtain rfl := Except.ok.inj h
      simp only [parseState] at hparse
      split at hparse
      · simp at hparse
      · split at hparse
        · obtain ⟨fields, -, hparse⟩ := Option.bind_eq_some_iff.mp hparse
          simp only [stateOfFields, Option.bind_eq_bind, Option.bind_eq_some_iff,
            Option.guard_eq_some', Option.pure_def, Option.some.injEq] at hparse
          obtain ⟨-, -, -, -, -, -, -, -, time, -, -, hbound, -, -, -, -, -, -, rfl⟩ := hparse
          rw [Int64.le_iff_toInt_le]
          show (0 : ℤ) ≤ time.toBitVec.toInt
          rw [BitVec.toInt_eq_toNat_of_lt (by rw [UInt64.toNat_toBitVec]; omega)]
          exact Int.natCast_nonneg _
        · simp at hparse
    · simp at h

/-! ## Nothing is rolled back -/

/-- From `s` to `t` no version and no time decreases, and a version that stays keeps its digest. -/
structure TrustState.Precedes (s t : TrustState) : Prop where
  root : s.rootVersion ≤ t.rootVersion
  rootDigest : s.rootVersion = t.rootVersion → s.rootSha256 = t.rootSha256
  snapshot : s.snapshotVersion ≤ t.snapshotVersion
  snapshotDigest : s.snapshotVersion = t.snapshotVersion → s.snapshotSha256 = t.snapshotSha256
  timestamp : s.timestampVersion ≤ t.timestampVersion
  timestampDigest : s.timestampVersion = t.timestampVersion →
    s.timestampSha256 = t.timestampSha256
  time : s.lastVerifiedTime ≤ t.lastVerifiedTime

lemma TrustState.Precedes.refl (s : TrustState) : s.Precedes s :=
  ⟨UInt64.le_refl _, fun _ => rfl, UInt64.le_refl _, fun _ => rfl, UInt64.le_refl _,
    fun _ => rfl, Int64.le_refl _⟩

/-- A version that is the same at both ends of two steps is the same in between. -/
lemma digest_trans {u v w : UInt64} {a b c : Text} (huv : u ≤ v) (hvw : v ≤ w)
    (hab : u = v → a = b) (hbc : v = w → b = c) (h : u = w) : a = c := by
  subst h
  obtain rfl := UInt64.le_antisymm huv hvw
  exact (hab rfl).trans (hbc rfl)

lemma TrustState.Precedes.trans {s t u : TrustState} (hst : s.Precedes t) (htu : t.Precedes u) :
    s.Precedes u where
  root := UInt64.le_trans hst.root htu.root
  rootDigest := digest_trans hst.root htu.root hst.rootDigest htu.rootDigest
  snapshot := UInt64.le_trans hst.snapshot htu.snapshot
  snapshotDigest := digest_trans hst.snapshot htu.snapshot hst.snapshotDigest htu.snapshotDigest
  timestamp := UInt64.le_trans hst.timestamp htu.timestamp
  timestampDigest :=
    digest_trans hst.timestamp htu.timestamp hst.timestampDigest htu.timestampDigest
  time := Int64.le_trans hst.time htu.time

/-- One comparison that passes.  A version of zero is never replaced by itself. -/
lemma checkRollback_eq_ok {version previousVersion : UInt64} {digest previousDigest : Text}
    (h : checkRollback name version digest previousVersion previousDigest = .ok ())
    (hne : version ≠ 0) :
    previousVersion ≤ version ∧ (previousVersion = version → previousDigest = digest) := by
  unfold checkRollback at h
  split at h
  · simp at h
  · rename_i hpass
    refine ⟨UInt64.not_lt.mp fun hlt => hpass (.inl hlt), ?_⟩
    rintro rfl
    by_contra hdigest
    exact hpass (.inr ⟨rfl, hne, fun heq => hdigest heq.symm⟩)

/-- What passes the three comparisons rolls nothing back. -/
theorem precedes_of_checkRollback {s t : TrustState}
    (hroot : checkRollback "root" t.rootVersion t.rootSha256 s.rootVersion s.rootSha256 = .ok ())
    (hsnapshot : checkRollback "snapshot" t.snapshotVersion t.snapshotSha256 s.snapshotVersion
      s.snapshotSha256 = .ok ())
    (htimestamp : checkRollback "timestamp" t.timestampVersion t.timestampSha256
      s.timestampVersion s.timestampSha256 = .ok ())
    (hroot' : t.rootVersion ≠ 0) (hsnapshot' : t.snapshotVersion ≠ 0)
    (htimestamp' : t.timestampVersion ≠ 0) (htime : s.lastVerifiedTime ≤ t.lastVerifiedTime) :
    s.Precedes t where
  root := (checkRollback_eq_ok hroot hroot').1
  rootDigest := (checkRollback_eq_ok hroot hroot').2
  snapshot := (checkRollback_eq_ok hsnapshot hsnapshot').1
  snapshotDigest := (checkRollback_eq_ok hsnapshot hsnapshot').2
  timestamp := (checkRollback_eq_ok htimestamp htimestamp').1
  timestampDigest := (checkRollback_eq_ok htimestamp htimestamp').2
  time := htime

end Registry

end Chtholly
