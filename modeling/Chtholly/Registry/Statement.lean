import Mathlib.Data.List.Sort
import Chtholly.Registry.Fields

/-!
# Checkpoints and witness statements

A checkpoint names the size and the root of the log of a registry.  A witness signs a statement
about a checkpoint that it has seen, and names the head of the log as it knows it.  Statements are
stored and sent as texts.

## Main definitions

* `Registry.AuditCheckpoint`, `Registry.WitnessStatement` — the two records.
* `Registry.witnessStatementSignatureInput`, `Registry.renderWitnessStatement`,
  `Registry.parseWitnessStatement` — the texts of a statement.

## Main results

* `Registry.parse_render` — a statement that can be read back is the one that was written.
* `Registry.signatureInput_inj` — the signed text determines the statement.
-/

set_option autoImplicit false

namespace Chtholly

namespace Registry

/-- `RegistryMetadataSignature`. -/
structure MetadataSignature where
  keyId : Text
  signature : Text

/-- `RegistryAuditCheckpoint`. -/
structure AuditCheckpoint where
  registryName : Text
  treeSize : UInt64
  rootHash : Text
  rootVersion : UInt64
  rootSha256 : Text
  issuedAt : Text
  signatures : List MetadataSignature

def canonicalCheckpoint (checkpoint : AuditCheckpoint) : Text :=
  "chtholly-registry-audit-checkpoint-v1\n".toList ++
    appendField "registry".toList checkpoint.registryName ++
    appendField "tree-size".toList (decimal checkpoint.treeSize.toNat) ++
    appendField "root-hash".toList checkpoint.rootHash ++
    appendField "root-version".toList (decimal checkpoint.rootVersion.toNat) ++
    appendField "root-sha256".toList checkpoint.rootSha256 ++
    appendField "issued-at".toList checkpoint.issuedAt

/-- The start of the line of a signature. -/
def signatureTag : Text := "signature\t".toList

/-- The line of a signature. -/
def signatureLine (signature : MetadataSignature) : Text :=
  signatureTag ++ signature.keyId ++ '\t' :: signature.signature ++ ['\n']

def renderAuditCheckpoint (checkpoint : AuditCheckpoint) : Text :=
  canonicalCheckpoint checkpoint ++
    (checkpoint.signatures.insertionSort fun a b => a.keyId ≤ b.keyId).flatMap signatureLine

/-- `RegistryWitnessStatement`. -/
structure WitnessStatement where
  witnessName : Text
  registryName : Text
  registryOrigin : Text
  checkpointSha256 : Text
  treeSize : UInt64
  rootHash : Text
  rootVersion : UInt64
  rootSha256 : Text
  observedAt : Text
  headTreeSize : UInt64
  headRootHash : Text
  signature : MetadataSignature

def witnessStatementFormat : Text := "chtholly-registry-witness-statement-v1".toList

/-- The fields of a statement, in the order of its text. -/
def WitnessStatement.fields (statement : WitnessStatement) : List (Text × Text) :=
  [("witness".toList, statement.witnessName),
    ("registry".toList, statement.registryName),
    ("registry-origin".toList, statement.registryOrigin),
    ("checkpoint-sha256".toList, statement.checkpointSha256),
    ("tree-size".toList, decimal statement.treeSize.toNat),
    ("root-hash".toList, statement.rootHash),
    ("root-version".toList, decimal statement.rootVersion.toNat),
    ("root-sha256".toList, statement.rootSha256),
    ("observed-at".toList, statement.observedAt),
    ("head-tree-size".toList, decimal statement.headTreeSize.toNat),
    ("head-root-hash".toList, statement.headRootHash)]

def witnessStatementSignatureInput (statement : WitnessStatement) : Text :=
  witnessStatementFormat ++ '\n' :: statement.fields.flatMap fun f => appendField f.1 f.2

def renderWitnessStatement (statement : WitnessStatement) : Text :=
  witnessStatementSignatureInput statement ++ signatureLine statement.signature

def validHttpsOrigin (value : Text) : Bool :=
  "https://".toList.isPrefixOf value &&
    !value.any (fun ch => ch == '\t' || ch == '\r' || ch == '\n' || ch == ' ') &&
    !value.contains '@' && !(value.getLast? == some '/') &&
    !(value.drop 8).isEmpty && !(value.drop 8).contains '/'

/-! ## Reading a statement -/

def statementNames : List Text :=
  ["witness".toList, "registry".toList, "registry-origin".toList, "checkpoint-sha256".toList,
    "tree-size".toList, "root-hash".toList, "root-version".toList, "root-sha256".toList,
    "observed-at".toList, "head-tree-size".toList, "head-root-hash".toList]

/-- The state of the reader: the names still expected, the fields read, the signature. -/
structure StatementReader where
  names : List Text
  fields : List (Text × Text)
  signature : MetadataSignature

/-- One line after the first. -/
def StatementReader.line (reader : StatementReader) (line : Text) :
    Except String StatementReader :=
  if signatureTag.isPrefixOf line then
    match reader.names, cut '\t' (line.drop 10), reader.signature.keyId with
    | [], some (keyId, signature), [] => .ok { reader with signature := ⟨keyId, signature⟩ }
    | _, _, _ => .error "registry witness statement signature is malformed"
  else
    match reader.names with
    | [] => .error "registry witness statement contains an unknown field"
    | name :: names =>
      let malformed := .error "registry witness statement field is malformed"
      match cut '\t' line with
      | none => malformed
      | some (first, rest) =>
        match cut ':' rest with
        | none => malformed
        | some (size, value) =>
          if first = name ∧ (parseUnsigned size).map UInt64.toNat = some value.length then
            .ok { reader with names := names, fields := reader.fields ++ [(name, value)] }
          else malformed

def StatementReader.run (reader : StatementReader) : List Text → Except String StatementReader
  | [] => .ok reader
  | line :: rest =>
    match reader.line line with
    | .error message => .error message
    | .ok reader => reader.run rest

/-- `fields[name]`, which is empty for an absent field. -/
def StatementReader.field (reader : StatementReader) (name : Text) : Text :=
  (reader.fields.lookup name).getD []

/-- The checks after the last line. -/
def StatementReader.finish (reader : StatementReader) : Except String WitnessStatement :=
  let invalid := .error "registry witness statement values are invalid"
  match parseUnsigned (reader.field "tree-size".toList),
      parseUnsigned (reader.field "root-version".toList),
      parseUnsigned (reader.field "head-tree-size".toList) with
  | some treeSize, some rootVersion, some headTreeSize =>
    if reader.names = [] ∧ reader.signature.keyId ≠ [] ∧ treeSize ≠ 0 ∧ rootVersion ≠ 0 ∧
        headTreeSize ≠ 0 ∧ reader.field "witness".toList ≠ [] ∧
        reader.field "registry".toList ≠ [] ∧
        validHttpsOrigin (reader.field "registry-origin".toList) = true ∧
        isHexDigest (reader.field "checkpoint-sha256".toList) = true ∧
        isHexDigest (reader.field "root-hash".toList) = true ∧
        isHexDigest (reader.field "root-sha256".toList) = true ∧
        isHexDigest (reader.field "head-root-hash".toList) = true then
      if (parseRfc3339 (reader.field "observed-at".toList)).isSome then
        .ok
          { witnessName := reader.field "witness".toList
            registryName := reader.field "registry".toList
            registryOrigin := reader.field "registry-origin".toList
            checkpointSha256 := reader.field "checkpoint-sha256".toList
            treeSize := treeSize
            rootHash := reader.field "root-hash".toList
            rootVersion := rootVersion
            rootSha256 := reader.field "root-sha256".toList
            observedAt := reader.field "observed-at".toList
            headTreeSize := headTreeSize
            headRootHash := reader.field "head-root-hash".toList
            signature := reader.signature }
      else .error "registry witness statement observation time is invalid"
    else invalid
  | _, _, _ => invalid

def parseWitnessStatement (text : Text) : Except String WitnessStatement :=
  if 128 * 1024 < text.length then
    .error "registry witness statement exceeds its size limit"
  else
    match lines text with
    | [] => .error "registry witness statement has an invalid format"
    | first :: rest =>
      if first ≠ witnessStatementFormat then
        .error "registry witness statement has an invalid format"
      else
        match StatementReader.run ⟨statementNames, [], ⟨[], []⟩⟩ rest with
        | .error message => .error message
        | .ok reader => reader.finish

/-! ## What was written is what is read -/

/-- A name that can stand at the start of a line of a field. -/
def plainName (name : Text) : Bool :=
  !name.isEmpty && !(name.head? == some 's') && name.all fun ch => ch != '\t' && ch != '\n'

lemma plainName_statementNames : statementNames.all plainName = true := by
  decide

namespace StatementReader

variable {reader out : StatementReader} {name value : Text} {names : List Text}

/-- The line of a field, where the expected name and the length agree. -/
lemma line_fieldLine (hname : plainName name = true) (hnames : reader.names = name :: names)
    {n : ℕ} (h : reader.line (fieldLine name value n) = .ok out) :
    value.length = n ∧
      out = { reader with names := names, fields := reader.fields ++ [(name, value)] } := by
  simp only [plainName, Bool.and_eq_true, Bool.not_eq_true', List.all_eq_true, bne_iff_ne,
    beq_eq_false_iff_ne] at hname
  obtain ⟨⟨hne, hhead⟩, hchars⟩ := hname
  have htab : '\t' ∉ name := fun hm => (hchars _ hm).1 rfl
  have hsig : signatureTag.isPrefixOf (fieldLine name value n) = false := by
    obtain ⟨tag, htag⟩ : ∃ tag, signatureTag = 's' :: tag := ⟨_, rfl⟩
    cases name with
    | nil => simp at hne
    | cons ch name =>
      have hch : ('s' == ch) = false := beq_false_of_ne fun he => hhead (by rw [he]; rfl)
      rw [htag, fieldLine, List.cons_append, List.cons_append, List.isPrefixOf, hch,
        Bool.false_and]
  have hcut : cut '\t' (fieldLine name value n) = some (name, decimal n ++ ':' :: value) := by
    rw [fieldLine, List.append_assoc, List.cons_append]
    exact cut_append htab _
  rw [StatementReader.line, if_neg (by rw [hsig]; simp), hnames] at h
  dsimp only at h
  rw [hcut] at h
  dsimp only at h
  rw [cut_append (colon_not_mem_decimal n)] at h
  simp only [true_and] at h
  split at h
  · rename_i hlen
    obtain ⟨m, hm, hval⟩ := Option.map_eq_some_iff.mp hlen
    by_cases hn : n < 2 ^ 64
    · rw [parseUnsigned_decimal hn] at hm
      obtain rfl := Option.some.inj hm
      rw [UInt64.toNat_ofNat_of_lt' hn] at hval
      exact ⟨hval.symm, (Except.ok.inj h).symm⟩
    · have hover : ¬Nat.ofDigitChars 10 (decimal n) 0 < 2 ^ 64 := by
        rw [decimal, Nat.ofDigitChars_ten_toDigits]
        exact hn
      rw [parseUnsigned, if_neg fun hc => hover hc.2.2] at hm
      simp at hm
  · simp at h

/-- A field at the front of the text. -/
lemma run_appendField (hname : plainName name = true) (hnames : reader.names = name :: names)
    {rest : Text} (h : reader.run (lines (appendField name value ++ rest)) = .ok out) :
    run { reader with names := names, fields := reader.fields ++ [(name, value)] }
      (lines rest) = .ok out := by
  have hbreak : '\n' ∉ name := by
    intro hm
    simp only [plainName, Bool.and_eq_true, List.all_eq_true, bne_iff_ne] at hname
    exact (hname.2 _ hm).2 rfl
  obtain ⟨first, ls, hlines, hfirst⟩ := lines_appendField value hbreak rest
  rw [hlines, run] at h
  split at h
  · simp at h
  · rename_i reader' hline
    obtain ⟨hlen, rfl⟩ := line_fieldLine hname hnames hline
    rcases hfirst with ⟨rfl, rfl⟩ | hshort
    · exact h
    · omega

lemma run_fields (names : List Text) {fields : List (Text × Text)} (hplain : ∀ f ∈ fields, plainName f.1 = true)
    (hnames : reader.names = fields.map Prod.fst ++ names) {rest : Text}
    (h : reader.run (lines ((fields.flatMap fun f => appendField f.1 f.2) ++ rest)) = .ok out) :
    run { reader with names := names, fields := reader.fields ++ fields } (lines rest) =
      .ok out := by
  induction fields generalizing reader with
  | nil =>
    obtain rfl : reader.names = names := hnames
    simpa using h
  | cons f fields ih =>
    rw [List.flatMap_cons, List.append_assoc] at h
    have h' := run_appendField (hplain f (.head _)) hnames h
    have h'' := ih (fun g hg => hplain g (.tail _ hg)) rfl h'
    simpa using h''

/-- After the last name only signatures are read. -/
lemma run_signatures {ls : List Text} (hnames : reader.names = [])
    (h : reader.run ls = .ok out) : out.names = [] ∧ out.fields = reader.fields := by
  induction ls generalizing reader with
  | nil =>
    obtain rfl := Except.ok.inj h
    exact ⟨hnames, rfl⟩
  | cons line ls ih =>
    rw [run] at h
    split at h
    · simp at h
    · rename_i reader' hline
      rw [StatementReader.line, hnames] at hline
      split at hline
      · split at hline
        · obtain rfl := Except.ok.inj hline
          have hrest := ih rfl h
          exact hrest
        · simp at hline
      · simp at hline

end StatementReader

/-- A statement that can be read back is the one that was written, up to its signature. -/
theorem parse_render {s t : WitnessStatement}
    (h : parseWitnessStatement (renderWitnessStatement s) = .ok t) :
    t = { s with signature := t.signature } := by
  have hfirst : lines (renderWitnessStatement s) = witnessStatementFormat ::
      lines ((s.fields.flatMap fun f => appendField f.1 f.2) ++ signatureLine s.signature) := by
    rw [← lines_append (by decide), renderWitnessStatement, witnessStatementSignatureInput,
      List.append_assoc, List.cons_append]
  have hplain : ∀ f ∈ s.fields, plainName f.1 = true := by
    intro f hf
    refine List.all_eq_true.mp plainName_statementNames f.1 ?_
    exact List.mem_map_of_mem (f := Prod.fst) hf
  rw [parseWitnessStatement, hfirst] at h
  split at h
  · simp at h
  · simp only [ne_eq, not_true_eq_false, if_false] at h
    split at h
    · simp at h
    · rename_i reader hrun
      have hrest := StatementReader.run_fields [] hplain rfl hrun
      obtain ⟨-, hfields⟩ := StatementReader.run_signatures rfl hrest
      have hfields : reader.fields = s.fields := hfields
      have hfield : ∀ name, reader.field name = (s.fields.lookup name).getD [] := by
        intro name
        rw [StatementReader.field, hfields]
      have htree : reader.field "tree-size".toList = decimal s.treeSize.toNat := hfield _
      have hversion : reader.field "root-version".toList = decimal s.rootVersion.toNat := hfield _
      have hhead : reader.field "head-tree-size".toList = decimal s.headTreeSize.toNat := hfield _
      rw [StatementReader.finish, htree, hversion, hhead, parseUnsigned_toNat,
        parseUnsigned_toNat, parseUnsigned_toNat] at h
      dsimp only at h
      split at h
      · split at h
        · obtain rfl := Except.ok.inj h
          simp only [hfield]
          rfl
        · simp at h
      · simp at h

/-! ## The signed text -/

lemma flatMap_appendField_inj {fs gs : List (Text × Text)}
    (hnames : fs.map Prod.fst = gs.map Prod.fst)
    (h : (fs.flatMap fun f => appendField f.1 f.2) = gs.flatMap fun f => appendField f.1 f.2) :
    fs = gs := by
  induction fs generalizing gs with
  | nil =>
    cases gs with
    | nil => rfl
    | cons g gs => simp at hnames
  | cons f fs ih =>
    cases gs with
    | nil => simp at hnames
    | cons g gs =>
      obtain ⟨n, v⟩ := f
      obtain ⟨m, w⟩ := g
      obtain ⟨rfl, hrest⟩ : n = m ∧ fs.map Prod.fst = gs.map Prod.fst := by simpa using hnames
      obtain ⟨hvalue, htail⟩ := appendField_inj h
      rw [ih hrest htail, show v = w from hvalue]

lemma decimal_toNat_inj {m n : UInt64} (h : decimal m.toNat = decimal n.toNat) : m = n :=
  UInt64.toNat_inj.mp (decimal_injective h)

/-- The signed text determines the statement. -/
theorem signatureInput_inj {s t : WitnessStatement}
    (h : witnessStatementSignatureInput s = witnessStatementSignatureInput t) :
    s = { t with signature := s.signature } := by
  have hfields : s.fields = t.fields :=
    flatMap_appendField_inj rfl (List.cons.inj (List.append_cancel_left h)).2
  simp only [WitnessStatement.fields, List.cons.injEq, Prod.mk.injEq, true_and, and_true]
    at hfields
  obtain ⟨h1, h2, h3, h4, h5, h6, h7, h8, h9, h10, h11⟩ := hfields
  obtain ⟨s1, s2, s3, s4, s5, s6, s7, s8, s9, s10, s11, s12⟩ := s
  simp only [WitnessStatement.mk.injEq, and_true]
  exact ⟨h1, h2, h3, h4, decimal_toNat_inj h5, h6, decimal_toNat_inj h7, h8, h9,
    decimal_toNat_inj h10, h11⟩

end Registry

end Chtholly
