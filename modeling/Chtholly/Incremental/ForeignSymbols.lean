import Mathlib.Logic.Relation
import Chtholly.Incremental.Verification

/-!
# Foreign symbols in a graph of packages

Each module lists the foreign symbols it calls.  Two requirements of one external symbol that
disagree on its calling convention or on its signature cannot both be linked.  The verification of
a module compares neighbours in the list of its requirements, which is sorted by another key; the
verification of a package merges its own requirements with those of its direct dependencies.  Here
the two are put together over a graph of packages.

## Main definitions

* `Incremental.PackageGraph` — manifests, each with its direct dependencies, without a cycle.
* `Incremental.PackageGraph.Consistent` — no logical name is listed twice in a module, and in the
  closure of a package all requirements agree.

## Main results

* `Incremental.PackageGraph.consistent_iff` — when an accepted graph is consistent.
* `Incremental.twoBranches_conflict` — an accepted graph that is not.
-/

set_option autoImplicit false

namespace Chtholly

namespace Incremental

open Registry (Text Bytes)

/-- Packages with their manifests and direct dependencies. -/
structure PackageGraph where
  Package : Type
  manifest : Package → Manifest
  dependencies : Package → List Package
  acyclic : ∀ package,
    ¬ Relation.TransGen (fun p q => q ∈ dependencies p) package package

namespace PackageGraph

variable (graph : PackageGraph)

/-- Every manifest passes with the manifests of its direct dependencies. -/
def Accepted (codec : Codec) : Prop :=
  ∀ package, (graph.manifest package).verifyDependencies codec
    ((graph.dependencies package).map graph.manifest) = .ok ()

/-- The transitive dependency closure of a package, with the package itself. -/
def Closure (root package : graph.Package) : Prop :=
  Relation.ReflTransGen (fun p q => q ∈ graph.dependencies p) root package

/-- The modules of a package list each logical name once. -/
def NamesOnce (package : graph.Package) : Prop :=
  ∀ module ∈ (graph.manifest package).modules,
    (module.requiredForeignSymbols.map ForeignSymbolRequirement.logicalName).Nodup

/-- No requirement of the first package conflicts with one of the second. -/
def Compatible (p q : graph.Package) : Prop :=
  ∀ a ∈ (graph.manifest p).requirements, ∀ b ∈ (graph.manifest q).requirements, a.Agrees b

def Consistent : Prop :=
  (∀ package, graph.NamesOnce package) ∧
    ∀ root p q, graph.Closure root p → graph.Closure root q → graph.Compatible p q

/-- No logical name is listed in two places of a module that have another requirement between
them. -/
def NoDistantRepetition : Prop :=
  ∀ package, ∀ module ∈ (graph.manifest package).modules, ∀ i j : ℕ, i + 1 < j →
    ∀ a b, module.requiredForeignSymbols[i]? = some a → module.requiredForeignSymbols[j]? = some b →
      a.logicalName ≠ b.logicalName

/-- Some package has both among itself and its direct dependencies. -/
def SeenTogether (p q : graph.Package) : Prop :=
  ∃ package, (p = package ∨ p ∈ graph.dependencies package) ∧
    (q = package ∨ q ∈ graph.dependencies package)

/-- No two packages of a closure conflict that no package sees together. -/
def NoDistantConflict : Prop :=
  ∀ root p q, graph.Closure root p → graph.Closure root q → ¬ graph.SeenTogether p q →
    graph.Compatible p q

variable {graph}

/-- The requirements of a package are among those that a package which sees it merges. -/
lemma mem_merged {package p : graph.Package} {a : ForeignSymbolRequirement}
    (hp : p = package ∨ p ∈ graph.dependencies package)
    (ha : a ∈ (graph.manifest p).requirements) :
    a ∈ (graph.manifest package).requirements ++
      ((graph.dependencies package).map graph.manifest).flatMap Manifest.requirements := by
  rw [List.mem_append, List.mem_flatMap]
  obtain rfl | hp := hp
  · exact Or.inl ha
  · exact Or.inr ⟨graph.manifest p, List.mem_map_of_mem hp, ha⟩

variable {codec : Codec}

lemma Accepted.compatible (h : graph.Accepted codec) {p q : graph.Package}
    (hpq : graph.SeenTogether p q) : graph.Compatible p q := by
  obtain ⟨package, hp, hq⟩ := hpq
  intro a ha b hb
  exact Manifest.allAgree_of_verifyDependencies (h package) a (mem_merged hp ha) b
    (mem_merged hq hb)

lemma Accepted.validForeignSymbols (h : graph.Accepted codec) {package : graph.Package}
    {module : PackageModuleArtifact} (hmem : module ∈ (graph.manifest package).modules) :
    validForeignSymbols module.requiredForeignSymbols "package check module" = .ok () := by
  have hverify := h package
  simp only [Manifest.verifyDependencies, andThen_eq_ok] at hverify
  exact Manifest.validForeignSymbols_of_verify hverify.1 hmem

/-- Neighbours have different names, and so have requirements further apart. -/
lemma Accepted.namesOnce (h : graph.Accepted codec) (hdistant : graph.NoDistantRepetition)
    (package : graph.Package) : graph.NamesOnce package := by
  intro module hmem
  have hvalid := h.validForeignSymbols hmem
  simp only [Incremental.validForeignSymbols, andThen_eq_ok, ensure_eq_ok,
    decide_eq_true_eq] at hvalid
  have hneighbours := List.isChain_iff_getElem.mp hvalid.2
  rw [List.Nodup, List.pairwise_map, List.pairwise_iff_getElem]
  intro i j hi hj hij
  obtain rfl | hij := Nat.eq_or_lt_of_le (Nat.succ_le_of_lt hij)
  · exact hneighbours i hj
  · exact hdistant package module hmem i j hij _ _ (List.getElem?_eq_getElem hi)
      (List.getElem?_eq_getElem hj)

/-- An accepted graph is consistent exactly when no module repeats a logical name past another
requirement and no two packages of a closure that nothing sees together conflict. -/
theorem consistent_iff {codec : Codec} (h : graph.Accepted codec) :
    graph.Consistent ↔ graph.NoDistantRepetition ∧ graph.NoDistantConflict := by
  constructor
  · intro hconsistent
    constructor
    · intro package module hmem i j hij a b ha hb heq
      obtain ⟨hi, rfl⟩ := List.getElem?_eq_some_iff.mp ha
      obtain ⟨hj, rfl⟩ := List.getElem?_eq_some_iff.mp hb
      have hnodup := hconsistent.1 package module hmem
      rw [List.Nodup, List.pairwise_map, List.pairwise_iff_getElem] at hnodup
      exact hnodup i j hi hj (by omega) heq
    · intro root p q hp hq _
      exact hconsistent.2 root p q hp hq
  · intro hdistant
    constructor
    · exact h.namesOnce hdistant.1
    · intro root p q hp hq
      by_cases hseen : graph.SeenTogether p q
      · exact h.compatible hseen
      · exact hdistant.2 root p q hp hq hseen

end PackageGraph

/-! ## Packages with small interfaces

A package without public declarations is enough to see what the verification lets through. -/

/-- `artifactFingerprint`, for an interface without declarations. -/
def emptyInterfaceFingerprint (packageName moduleName : Text) : StableFingerprint :=
  .fromCanonicalBytes (appendField "chtholly.next.public-interface.v31".toList ++
    appendField packageName ++ appendField moduleName ++
    (List.replicate 6 (appendU32 0)).flatten)

/-- The verification of interfaces without declarations; the encoding keeps the name only. -/
def bareCodec : Codec where
  verifyInterface := fun interface =>
    ensure
      (!interface.packageName.isEmpty && !interface.moduleName.isEmpty &&
        interface.functions.isEmpty && interface.nominalTypes.isEmpty &&
        interface.fingerprint.hasValue &&
        interface.fingerprint ==
          emptyInterfaceFingerprint interface.packageName interface.moduleName)
      "public interface artifact has an invalid identity"
  encode := fun manifest => manifest.packageName.bytes

/-- A module without declarations that calls some foreign symbols. -/
def bareModule (packageName : Text) (symbols : List ForeignSymbolRequirement) :
    PackageModuleArtifact where
  sourceFingerprint := stamp 1
  publicInterface :=
    { packageName := packageName
      moduleName := ['m']
      fingerprint := emptyInterfaceFingerprint packageName ['m'] }
  requiredForeignSymbols := symbols
  specificFingerprint := stamp 2
  objectFingerprint := stamp 3

/-- The record that a package keeps of a direct dependency. -/
def record (dependency : Manifest) : PackageManifestDependency :=
  ⟨dependency.packageName, dependency.fingerprint bareCodec⟩

variable {packageName : Text}

lemma bareModule_verify {symbols : List ForeignSymbolRequirement} (hname : packageName ≠ [])
    (hfingerprint : (emptyInterfaceFingerprint packageName ['m']).hasValue = true)
    (hsymbols : validForeignSymbols symbols "package check module" = .ok ()) :
    (bareModule packageName symbols).verify bareCodec = .ok () := by
  simp only [PackageModuleArtifact.verify, PackageModuleArtifact.verifyCheck, andThen_eq_ok,
    ensure_eq_ok]
  refine ⟨⟨rfl, ?_, rfl, rfl, hsymbols, rfl⟩, rfl, rfl⟩
  simp [bareCodec, bareModule, hname, hfingerprint]

lemma verifyDirect_of_records {manifest : Manifest} {previous : Option Manifest}
    {dependencies : List Manifest}
    (hverify : ∀ dependency ∈ dependencies, dependency.verify bareCodec = .ok ())
    (hcontract : ∀ dependency ∈ dependencies,
      manifest.languageContract.isDependencyCompatibleWith dependency.languageContract = true)
    (hnames : (previous.toList ++ dependencies).IsChain fun a b => a.packageName ≠ b.packageName) :
    Manifest.verifyDirect bareCodec manifest previous
      (dependencies.zip (dependencies.map record)) = .ok () := by
  induction dependencies generalizing previous with
  | nil => rfl
  | cons dependency rest ih =>
    simp only [List.map_cons, List.zip_cons_cons, Manifest.verifyDirect, andThen_eq_ok,
      ensure_eq_ok]
    have htail : ((some dependency).toList ++ rest).IsChain
        fun a b : Manifest => a.packageName ≠ b.packageName := by
      cases previous with
      | none => exact hnames
      | some value => exact (List.isChain_cons_cons.mp hnames).2
    refine ⟨hverify dependency List.mem_cons_self, ?_, ih ?_ ?_ htail⟩
    · cases previous with
      | none => simp [hcontract dependency List.mem_cons_self, record]
      | some value =>
        have hne : value.packageName ≠ dependency.packageName := by
          exact (List.isChain_cons_cons.mp hnames).1
        simp [hcontract dependency List.mem_cons_self, record, hne]
    · exact fun d hd => hverify d (List.mem_cons_of_mem _ hd)
    · exact fun d hd => hcontract d (List.mem_cons_of_mem _ hd)

/-- A package without observations that records its dependencies, which are given in order. -/
lemma verifyDependencies_of_records {manifest : Manifest} {dependencies : List Manifest}
    (hrecords : manifest.directDependencies = dependencies.map record)
    (hverify : manifest.verify bareCodec = .ok ())
    (hdependencies : ∀ dependency ∈ dependencies, dependency.verify bareCodec = .ok ())
    (hcontract : ∀ dependency ∈ dependencies,
      manifest.languageContract.isDependencyCompatibleWith dependency.languageContract = true)
    (hsorted : dependencies.Pairwise fun a b => a.packageName < b.packageName)
    (hagree : AllAgree (manifest.requirements ++ dependencies.flatMap Manifest.requirements))
    (hclosed : ∀ module ∈ manifest.modules, module.observations = []) :
    manifest.verifyDependencies bareCodec dependencies = .ok () := by
  have hordered :
      dependencies.insertionSort (fun a b => a.packageName ≤ b.packageName) = dependencies :=
    (hsorted.imp fun h => h.le).insertionSort_eq
  have hchain : dependencies.IsChain fun a b => a.packageName ≠ b.packageName :=
    (hsorted.imp fun h => h.ne).isChain
  simp only [Manifest.verifyDependencies, andThen_eq_ok, ensure_eq_ok, hordered, hrecords,
    hverify, List.length_map, beq_self_eq_true, checkAll_eq_ok, true_and]
  refine ⟨verifyDirect_of_records hdependencies hcontract hchain, ?_, ?_⟩
  · rw [Manifest.mergeRequirements_isSome (by simp [AllAgree]), List.nil_append]
    exact hagree
  · intro module hmem
    simp [hclosed module hmem]

/-! ## Two branches

The package `a` depends on `b` and `c`; `b` depends on `d` and `c` on `e`.  Both `d` and `e` call
`x`, with different signatures, and the module of `a` lists `f` twice, with `g` between. -/

/-- A module's call of `x`, with a signature. -/
def callsX (signature : UInt8) : List ForeignSymbolRequirement :=
  [{ logicalName := ['x'], externalSymbol := ['x'], signatureFingerprint := stamp signature }]

def callsTwice : List ForeignSymbolRequirement :=
  [{ logicalName := ['f'], externalSymbol := ['p'], signatureFingerprint := stamp 6 },
    { logicalName := ['g'], externalSymbol := ['q'], signatureFingerprint := stamp 6 },
    { logicalName := ['f'], externalSymbol := ['r'], signatureFingerprint := stamp 6 }]

def packageD : Manifest := barePackage ['d'] [] [bareModule ['d'] (callsX 1)]

def packageE : Manifest := barePackage ['e'] [] [bareModule ['e'] (callsX 2)]

def packageB : Manifest := barePackage ['b'] [record packageD] []

def packageC : Manifest := barePackage ['c'] [record packageE] []

def packageA : Manifest :=
  barePackage ['a'] [record packageB, record packageC] [bareModule ['a'] callsTwice]

lemma verifyModules_bareModule {symbols : List ForeignSymbolRequirement}
    (h : (bareModule packageName symbols).verify bareCodec = .ok ()) :
    Manifest.verifyModules bareCodec packageName [] [bareModule packageName symbols] = .ok () := by
  simp only [Manifest.verifyModules, andThen_eq_ok, ensure_eq_ok, h, and_true]
  simp [bareModule]

variable {signature : UInt8}

lemma leaf_verify
    (hconfiguration :
      (barePackage packageName [] [bareModule packageName (callsX signature)]).validConfiguration =
        true) (hname : packageName ≠ [])
    (hfingerprint : (emptyInterfaceFingerprint packageName ['m']).hasValue = true)
    (hsymbols : validForeignSymbols (callsX signature) "package check module" = .ok ()) :
    (barePackage packageName [] [bareModule packageName (callsX signature)]).verify bareCodec =
      .ok () := by
  apply barePackage_verify hconfiguration
  · exact verifyModules_bareModule (bareModule_verify hname hfingerprint hsymbols)
  · simp [bareModule]

lemma packageD_verify : packageD.verify bareCodec = .ok () :=
  leaf_verify rfl (by decide) (by decide +kernel) rfl

lemma packageE_verify : packageE.verify bareCodec = .ok () :=
  leaf_verify rfl (by decide) (by decide +kernel) rfl

lemma hasValue_record {dependency : Manifest} (h : dependency.verify bareCodec = .ok ())
    (hvalue :
      (StableFingerprint.fromCanonicalBytes (dependency.canonicalBytes bareCodec)).hasValue = true) :
    (record dependency).manifestFingerprint.hasValue = true := by
  rw [record, Manifest.fingerprint_of_verify h]
  exact hvalue

lemma packageB_verify : packageB.verify bareCodec = .ok () := by
  have hvalue := hasValue_record packageD_verify (by decide +kernel)
  apply barePackage_verify
  · simp [Manifest.validConfiguration, barePackage, hvalue]
    decide
  · rfl
  · simp

lemma packageC_verify : packageC.verify bareCodec = .ok () := by
  have hvalue := hasValue_record packageE_verify (by decide +kernel)
  apply barePackage_verify
  · simp [Manifest.validConfiguration, barePackage, hvalue]
    decide
  · rfl
  · simp

lemma packageA_verify : packageA.verify bareCodec = .ok () := by
  have hvalueB := hasValue_record packageB_verify (by decide +kernel)
  have hvalueC := hasValue_record packageC_verify (by decide +kernel)
  apply barePackage_verify
  · simp [Manifest.validConfiguration, barePackage, hvalueB, hvalueC]
    decide
  · apply verifyModules_bareModule
    exact bareModule_verify (by decide) (by decide +kernel) rfl
  · simp [bareModule]

inductive Branch
  | a
  | b
  | c
  | d
  | e
  deriving DecidableEq

namespace Branch

def manifest : Branch → Manifest
  | a => packageA
  | b => packageB
  | c => packageC
  | d => packageD
  | e => packageE

def dependencies : Branch → List Branch
  | a => [b, c]
  | b => [d]
  | c => [e]
  | d => []
  | e => []

/-- How far below `a` a package is. -/
def depth : Branch → ℕ
  | a => 0
  | b => 1
  | c => 1
  | d => 2
  | e => 2

lemma depth_lt {p q : Branch} (h : Relation.TransGen (fun p q => q ∈ p.dependencies) p q) :
    p.depth < q.depth := by
  have hstep : ∀ p q : Branch, q ∈ p.dependencies → p.depth < q.depth := by
    intro p q hq
    cases p <;> cases q <;> revert hq <;> decide
  induction h with
  | single hq => exact hstep _ _ hq
  | tail _ hq ih => exact ih.trans (hstep _ _ hq)

end Branch

def twoBranches : PackageGraph where
  Package := Branch
  manifest := Branch.manifest
  dependencies := Branch.dependencies
  acyclic := fun _ h => lt_irrefl _ (Branch.depth_lt h)

lemma leaf_verifyDependencies
    (h : (barePackage packageName [] [bareModule packageName (callsX signature)]).verify bareCodec =
      .ok ()) :
    (barePackage packageName [] [bareModule packageName (callsX signature)]).verifyDependencies
      bareCodec [] = .ok () := by
  apply verifyDependencies_of_records rfl h
  · simp
  · simp
  · exact List.Pairwise.nil
  · simp [AllAgree, ForeignSymbolRequirement.Agrees, Manifest.requirements, barePackage, bareModule,
      callsX]
  · simp [barePackage, bareModule]

lemma middle_verifyDependencies {leafName : Text} {leaf : Manifest}
    (hleaf : leaf = barePackage leafName [] [bareModule leafName (callsX signature)])
    (h : (barePackage packageName [record leaf] []).verify bareCodec = .ok ())
    (hverify : leaf.verify bareCodec = .ok ()) :
    (barePackage packageName [record leaf] []).verifyDependencies bareCodec [leaf] = .ok () := by
  apply verifyDependencies_of_records rfl h
  · simpa using hverify
  · subst hleaf
    simp [barePackage, LanguageContract.isDependencyCompatibleWith]
  · exact List.pairwise_singleton _ _
  · subst hleaf
    simp [AllAgree, ForeignSymbolRequirement.Agrees, Manifest.requirements, barePackage, bareModule,
      callsX]
  · simp [barePackage]

lemma packageA_verifyDependencies :
    packageA.verifyDependencies bareCodec [packageB, packageC] = .ok () := by
  apply verifyDependencies_of_records rfl packageA_verify
  · simp [packageB_verify, packageC_verify]
  · simp [packageA, packageB, packageC, barePackage, LanguageContract.isDependencyCompatibleWith]
  · simp [packageB, packageC, barePackage]
    decide
  · unfold AllAgree ForeignSymbolRequirement.Agrees
    decide
  · simp [packageA, barePackage, bareModule]

lemma twoBranches_accepted : twoBranches.Accepted bareCodec := by
  intro package
  cases package with
  | a => exact packageA_verifyDependencies
  | b => exact middle_verifyDependencies rfl packageB_verify packageD_verify
  | c => exact middle_verifyDependencies rfl packageC_verify packageE_verify
  | d => exact leaf_verifyDependencies packageD_verify
  | e => exact leaf_verifyDependencies packageE_verify

/-- Every package of the graph is accepted; its first module lists a name twice, and two packages
below it conflict. -/
theorem twoBranches_conflict :
    twoBranches.Accepted bareCodec ∧ ¬ twoBranches.NamesOnce Branch.a ∧
      twoBranches.Closure Branch.a Branch.d ∧ twoBranches.Closure Branch.a Branch.e ∧
      ¬ twoBranches.Compatible Branch.d Branch.e := by
  refine ⟨twoBranches_accepted, ?_, ?_, ?_, ?_⟩
  · intro h
    have hnodup := h (bareModule ['a'] callsTwice) (by simp [twoBranches, Branch.manifest,
      packageA, barePackage])
    revert hnodup
    decide
  · have hb : Branch.b ∈ Branch.a.dependencies := by decide
    have hd : Branch.d ∈ Branch.b.dependencies := by decide
    exact Relation.ReflTransGen.tail (Relation.ReflTransGen.single hb) hd
  · have hc : Branch.c ∈ Branch.a.dependencies := by decide
    have he : Branch.e ∈ Branch.c.dependencies := by decide
    exact Relation.ReflTransGen.tail (Relation.ReflTransGen.single hc) he
  · unfold PackageGraph.Compatible ForeignSymbolRequirement.Agrees
    simp [twoBranches, Branch.manifest, packageD, packageE, Manifest.requirements, barePackage,
      bareModule, callsX]
    decide

/-- The package `d` on its own. -/
def loneLeaf : PackageGraph where
  Package := Unit
  manifest := fun _ => packageD
  dependencies := fun _ => []
  acyclic := by
    intro package h
    induction h with
    | single h => simp at h
    | tail _ h _ => simp at h

theorem loneLeaf_consistent : loneLeaf.Accepted bareCodec ∧ loneLeaf.Consistent := by
  have haccepted : loneLeaf.Accepted bareCodec := fun _ => leaf_verifyDependencies packageD_verify
  refine ⟨haccepted, (PackageGraph.consistent_iff haccepted).mpr ⟨?_, ?_⟩⟩
  · intro package module hmem i j hij a b ha hb
    simp only [loneLeaf, packageD, barePackage, List.mem_singleton] at hmem
    subst hmem
    have hlength : j < 1 := (List.getElem?_eq_some_iff.mp hb).1
    omega
  · intro root p q _ _ hseen
    exact absurd ⟨p, Or.inl rfl, Or.inl rfl⟩ hseen

end Incremental

end Chtholly
