import Codegg.Library.ByteCode
import Codegg.ToolProgram.Ir

/-!
# The digest of a stored program

A stored program is the intermediate representation with all its fields. Its digest
is a hash of the concatenation of most of them, without lengths; the integrity check
of a program that is read back compares the digest it carries with that hash.
-/
namespace Codegg.ToolProgram

open Codegg.Library

/-! ### Stored programs -/

/-- Every operand is a 32-bit number. -/
def IrOp.Fits : IrOp → Prop
  | .loadInt n | .loadFloat n | .loadString n | .loadLocal n | .storeLocal n => n < 256 ^ 4
  | .makeList n | .makeTuple n | .makeDict n | .parallelStart n => n < 256 ^ 4
  | .jumpIfFalse target | .jump target => target < 256 ^ 4
  | .forLoopStart a b | .forLoopNext a b => a < 256 ^ 4 ∧ b < 256 ^ 4
  | _ => True

/-- Every bound has its width. -/
structure IrBounds.Fits (b : IrBounds) : Prop where
  maxSteps : b.maxSteps < 256 ^ 8
  maxLoopIterations : b.maxLoopIterations < 256 ^ 8
  maxTotalIterations : b.maxTotalIterations < 256 ^ 8
  callSiteCount : b.callSiteCount < 256 ^ 4
  maxDynamicCalls : b.maxDynamicCalls < 256 ^ 8
  maxParallelWidth : b.maxParallelWidth < 256 ^ 4
  maxParallelDepth : b.maxParallelDepth < 256 ^ 4
  maxNestingDepth : b.maxNestingDepth < 256 ^ 4
  maxValueGrowth : b.maxValueGrowth < 256 ^ 8

/-- An instruction with its source span. -/
structure IrInstruction where
  op : IrOp
  spanIdx : UInt32
  fits : op.Fits

structure IrSpan where
  start : UInt32
  length : UInt32
  deriving DecidableEq, Repr

/-- A compiled program with all its fields. -/
structure StoredIr where
  version : UInt32
  languageVersion : UInt32
  compilerVersion : UInt32
  parserVersion : UInt32
  sourceHash : String
  manifestHash : String
  limitsHash : String
  digest : String
  instructions : List IrInstruction
  localCount : UInt32
  bounds : IrBounds
  bounds_fit : bounds.Fits
  spans : List IrSpan
  strings : List String
  integers : List Int64
  floats : List FloatBits
  resultSchema : Option Json

/-! ### The digest -/

def IrBinOp.asU8 : IrBinOp → UInt8
  | .add => 0 | .sub => 1 | .mul => 2 | .div => 3 | .floorDiv => 4 | .mod => 5
  | .pow => 6 | .bitOr => 7 | .bitXor => 8 | .bitAnd => 9 | .lShift => 10 | .rShift => 11

def IrUnaryOp.asU8 : IrUnaryOp → UInt8
  | .neg => 0 | .pos => 1 | .invert => 2

def IrCmpOp.asU8 : IrCmpOp → UInt8
  | .eq => 0 | .notEq => 1 | .lt => 2 | .ltE => 3 | .gt => 4 | .gtE => 5 | .in_ => 6 | .notIn => 7

/-- The bytes of an instruction: its number, then its operands. -/
def digestOp : IrOp → List UInt8
  | .loadInt poolIdx => 1 :: leBytes 4 poolIdx
  | .loadFloat poolIdx => 2 :: leBytes 4 poolIdx
  | .loadString poolIdx => 3 :: leBytes 4 poolIdx
  | .loadTrue => [4]
  | .loadFalse => [5]
  | .loadNone => [6]
  | .loadLocal slot => 7 :: leBytes 4 slot
  | .storeLocal slot => 8 :: leBytes 4 slot
  | .makeList count => 9 :: leBytes 4 count
  | .makeTuple count => 10 :: leBytes 4 count
  | .makeDict count => 11 :: leBytes 4 count
  | .binOp kind => [12, kind.asU8]
  | .unaryOp kind => [13, kind.asU8]
  | .compare kind => [14, kind.asU8]
  | .boolAnd => [15]
  | .boolOr => [16]
  | .boolNot => [17]
  | .pop => [18]
  | .dup => [19]
  | .index => [20]
  | .slice => [21]
  | .len => [22]
  | .str => [23]
  | .int => [24]
  | .bool => [25]
  | .jumpIfFalse target => 26 :: leBytes 4 target
  | .jump target => 27 :: leBytes 4 target
  | .forLoopStart bodyStart loopEnd => 28 :: (leBytes 4 bodyStart ++ leBytes 4 loopEnd)
  | .forLoopNext loopStart loopEnd => 29 :: (leBytes 4 loopStart ++ leBytes 4 loopEnd)
  | .forLoopIter => [30]
  | .constructCall => [31]
  | .executeCall => [32]
  | .parallelStart count => 33 :: leBytes 4 count
  | .parallelExecute => [34]
  | .emit => [35]
  | .fail => [36]
  | .checkpoint => [37]
  | .return_ => [38]
  | .executeChildJob => [39]

def digestInstruction (inst : IrInstruction) : List UInt8 :=
  leBytes 4 inst.spanIdx.toNat ++ digestOp inst.op

/-- The UTF-8 bytes of a text. -/
def textBytes (s : String) : List UInt8 := s.toByteArray.data.toList

def digestBounds (b : IrBounds) : List UInt8 :=
  leBytes 8 b.maxSteps ++ leBytes 8 b.maxLoopIterations ++ leBytes 8 b.maxTotalIterations ++
    leBytes 4 b.callSiteCount ++ leBytes 8 b.maxDynamicCalls ++ leBytes 4 b.maxParallelWidth ++
    leBytes 4 b.maxParallelDepth ++ leBytes 4 b.maxNestingDepth ++ leBytes 8 b.maxValueGrowth

def digestInteger (i : Int64) : List UInt8 := leBytes 8 i.toUInt64.toNat

def digestFloat (f : FloatBits) : List UInt8 := leBytes 8 f.bits.toNat

def digestVersions (ir : StoredIr) : List UInt8 :=
  leBytes 4 ir.version.toNat ++ leBytes 4 ir.languageVersion.toNat ++
    leBytes 4 ir.compilerVersion.toNat ++ leBytes 4 ir.parserVersion.toNat

/-- Everything fed to the hasher, in order; each string of the pool is followed by a
zero byte. -/
def digestInput (ir : StoredIr) : List UInt8 :=
  digestVersions ir ++ textBytes ir.sourceHash ++ textBytes ir.manifestHash ++
    textBytes ir.limitsHash ++ ir.instructions.flatMap digestInstruction ++
    ir.strings.flatMap (fun s => textBytes s ++ [0]) ++ ir.integers.flatMap digestInteger ++
    ir.floats.flatMap digestFloat ++ digestBounds ir.bounds

/-- The digest, for a hash that gives its result in hexadecimal. -/
def computeDigest (sha : List UInt8 → String) (ir : StoredIr) : String := sha (digestInput ir)

/-- Check that a program read back matches the digest it carries. -/
def verifyIrIntegrity (sha : List UInt8 → String) (ir : StoredIr) : Except String Unit :=
  let expected := computeDigest sha ir
  if ir.digest ≠ expected then
    .error ("IR digest mismatch after deserialization: expected " ++ expected ++ ", got " ++
      ir.digest)
  else .ok ()

theorem verifyIrIntegrity_eq_ok {sha : List UInt8 → String} {ir : StoredIr} :
    verifyIrIntegrity sha ir = .ok () ↔ ir.digest = computeDigest sha ir := by
  by_cases h : ir.digest = computeDigest sha ir
  · simp [verifyIrIntegrity]
  · simp [verifyIrIntegrity]

/-! ### Instructions can be cut off -/

def IrBinOp.ofU8? (b : UInt8) : Option IrBinOp :=
  [add, sub, mul, div, floorDiv, mod, pow, bitOr, bitXor, bitAnd, lShift, rShift][b.toNat]?

def IrUnaryOp.ofU8? (b : UInt8) : Option IrUnaryOp := [neg, pos, invert][b.toNat]?

def IrCmpOp.ofU8? (b : UInt8) : Option IrCmpOp :=
  [eq, notEq, lt, ltE, gt, gtE, in_, notIn][b.toNat]?

@[simp] theorem IrBinOp.ofU8?_asU8 (kind : IrBinOp) : ofU8? kind.asU8 = some kind := by
  cases kind <;> rfl

@[simp] theorem IrUnaryOp.ofU8?_asU8 (kind : IrUnaryOp) : ofU8? kind.asU8 = some kind := by
  cases kind <;> rfl

@[simp] theorem IrCmpOp.ofU8?_asU8 (kind : IrCmpOp) : ofU8? kind.asU8 = some kind := by
  cases kind <;> rfl

/-- An instruction with one operand. -/
def cutWord (op : ℕ → IrOp) (bytes : List UInt8) : Option (IrOp × List UInt8) :=
  some (op (ofLeBytes (bytes.take 4)), bytes.drop 4)

/-- An instruction with two operands. -/
def cutWords (op : ℕ → ℕ → IrOp) (bytes : List UInt8) : Option (IrOp × List UInt8) :=
  some (op (ofLeBytes (bytes.take 4)) (ofLeBytes ((bytes.drop 4).take 4)), (bytes.drop 4).drop 4)

/-- An instruction with a kind. -/
def cutKind {κ : Type} (ofU8? : UInt8 → Option κ) (op : κ → IrOp) :
    List UInt8 → Option (IrOp × List UInt8)
  | [] => none
  | b :: bytes => (ofU8? b).map fun kind => (op kind, bytes)

/-- Take an instruction off the front. -/
def cutOp : List UInt8 → Option (IrOp × List UInt8)
  | [] => none
  | b :: bytes =>
    match b.toNat with
    | 1 => cutWord .loadInt bytes
    | 2 => cutWord .loadFloat bytes
    | 3 => cutWord .loadString bytes
    | 4 => some (.loadTrue, bytes)
    | 5 => some (.loadFalse, bytes)
    | 6 => some (.loadNone, bytes)
    | 7 => cutWord .loadLocal bytes
    | 8 => cutWord .storeLocal bytes
    | 9 => cutWord .makeList bytes
    | 10 => cutWord .makeTuple bytes
    | 11 => cutWord .makeDict bytes
    | 12 => cutKind IrBinOp.ofU8? .binOp bytes
    | 13 => cutKind IrUnaryOp.ofU8? .unaryOp bytes
    | 14 => cutKind IrCmpOp.ofU8? .compare bytes
    | 15 => some (.boolAnd, bytes)
    | 16 => some (.boolOr, bytes)
    | 17 => some (.boolNot, bytes)
    | 18 => some (.pop, bytes)
    | 19 => some (.dup, bytes)
    | 20 => some (.index, bytes)
    | 21 => some (.slice, bytes)
    | 22 => some (.len, bytes)
    | 23 => some (.str, bytes)
    | 24 => some (.int, bytes)
    | 25 => some (.bool, bytes)
    | 26 => cutWord .jumpIfFalse bytes
    | 27 => cutWord .jump bytes
    | 28 => cutWords .forLoopStart bytes
    | 29 => cutWords .forLoopNext bytes
    | 30 => some (.forLoopIter, bytes)
    | 31 => some (.constructCall, bytes)
    | 32 => some (.executeCall, bytes)
    | 33 => cutWord .parallelStart bytes
    | 34 => some (.parallelExecute, bytes)
    | 35 => some (.emit, bytes)
    | 36 => some (.fail, bytes)
    | 37 => some (.checkpoint, bytes)
    | 38 => some (.return_, bytes)
    | 39 => some (.executeChildJob, bytes)
    | _ => none

theorem cutWord_leBytes (op : ℕ → IrOp) {n : ℕ} (hn : n < 256 ^ 4) (rest : List UInt8) :
    cutWord op (leBytes 4 n ++ rest) = some (op n, rest) := by
  have htake : (leBytes 4 n ++ rest).take 4 = leBytes 4 n :=
    List.take_left' (length_leBytes 4 n)
  have hdrop : (leBytes 4 n ++ rest).drop 4 = rest := List.drop_left' (length_leBytes 4 n)
  rw [cutWord, htake, hdrop, ofLeBytes_leBytes hn]

theorem cutWords_leBytes (op : ℕ → ℕ → IrOp) {m n : ℕ} (h : m < 256 ^ 4 ∧ n < 256 ^ 4)
    (rest : List UInt8) :
    cutWords op ((leBytes 4 m ++ leBytes 4 n) ++ rest) = some (op m n, rest) := by
  have htake : ∀ (k : ℕ) (bytes : List UInt8), (leBytes 4 k ++ bytes).take 4 = leBytes 4 k :=
    fun k bytes => List.take_left' (length_leBytes 4 k)
  have hdrop : ∀ (k : ℕ) (bytes : List UInt8), (leBytes 4 k ++ bytes).drop 4 = bytes :=
    fun k bytes => List.drop_left' (length_leBytes 4 k)
  rw [cutWords, List.append_assoc, htake, hdrop, htake, hdrop, ofLeBytes_leBytes h.1,
    ofLeBytes_leBytes h.2]

theorem cutOp_digestOp (op : IrOp) (rest : List UInt8) (h : op.Fits) :
    cutOp (digestOp op ++ rest) = some (op, rest) := by
  cases op
  case loadInt n => exact cutWord_leBytes _ h rest
  case loadFloat n => exact cutWord_leBytes _ h rest
  case loadString n => exact cutWord_leBytes _ h rest
  case loadLocal n => exact cutWord_leBytes _ h rest
  case storeLocal n => exact cutWord_leBytes _ h rest
  case makeList n => exact cutWord_leBytes _ h rest
  case makeTuple n => exact cutWord_leBytes _ h rest
  case makeDict n => exact cutWord_leBytes _ h rest
  case parallelStart n => exact cutWord_leBytes _ h rest
  case jumpIfFalse target => exact cutWord_leBytes _ h rest
  case jump target => exact cutWord_leBytes _ h rest
  case forLoopStart bodyStart loopEnd => exact cutWords_leBytes _ h rest
  case forLoopNext loopStart loopEnd => exact cutWords_leBytes _ h rest
  case binOp kind =>
    show cutKind IrBinOp.ofU8? .binOp (kind.asU8 :: rest) = _
    simp [cutKind]
  case unaryOp kind =>
    show cutKind IrUnaryOp.ofU8? .unaryOp (kind.asU8 :: rest) = _
    simp [cutKind]
  case compare kind =>
    show cutKind IrCmpOp.ofU8? .compare (kind.asU8 :: rest) = _
    simp [cutKind]
  all_goals rfl

theorem selfDelimiting_digestOp : SelfDelimiting IrOp.Fits digestOp :=
  .of_reader fun op rest h => cutOp_digestOp op rest h

theorem IrInstruction.ext_of {a b : IrInstruction} (hop : a.op = b.op)
    (hspan : a.spanIdx = b.spanIdx) : a = b := by
  cases a
  cases hop
  cases hspan
  rfl

theorem toNat_lt_pow (n : UInt32) : n.toNat < 256 ^ 4 := n.toNat_lt

theorem selfDelimiting_digestInstruction :
    SelfDelimiting (fun _ => True) digestInstruction := by
  intro a b r s _ _ heq
  obtain ⟨hspan, hrest⟩ := selfDelimiting_leBytes 4 _ _ _ _ (toNat_lt_pow _) (toNat_lt_pow _) heq
  obtain ⟨hop, hend⟩ := selfDelimiting_digestOp _ _ _ _ a.fits b.fits hrest
  exact ⟨IrInstruction.ext_of hop (UInt32.toNat_inj.mp hspan), hend⟩

/-! ### The sections -/

theorem textBytes_inj {s t : String} (h : textBytes s = textBytes t) : s = t :=
  String.toByteArray_inj.mp (ByteArray.ext (Array.toList_inj.mp h))

theorem digestInteger_inj {i j : Int64} (h : digestInteger i = digestInteger j) : i = j := by
  have hnat := leBytes_inj i.toUInt64.toNat_lt j.toUInt64.toNat_lt h
  have hbits := UInt64.toNat_inj.mp hnat
  cases i
  cases j
  simpa using hbits

theorem digestFloat_inj {f g : FloatBits} (h : digestFloat f = digestFloat g) : f = g := by
  have hnat := leBytes_inj f.bits.toNat_lt g.bits.toNat_lt h
  have hbits := UInt64.toNat_inj.mp hnat
  cases f
  cases g
  simpa using hbits

theorem digestVersions_inj {p q : StoredIr} (h : digestVersions p = digestVersions q) :
    p.version = q.version ∧ p.languageVersion = q.languageVersion ∧
      p.compilerVersion = q.compilerVersion ∧ p.parserVersion = q.parserVersion := by
  have hcut : ∀ m n : UInt32, ∀ r s, leBytes 4 m.toNat ++ r = leBytes 4 n.toNat ++ s →
      m = n ∧ r = s := by
    intro m n r s heq
    have h' := selfDelimiting_leBytes 4 _ _ r s (toNat_lt_pow m) (toNat_lt_pow n) heq
    exact ⟨UInt32.toNat_inj.mp h'.1, h'.2⟩
  obtain ⟨h1, h⟩ := hcut _ _ _ _ h
  obtain ⟨h2, h⟩ := hcut _ _ _ _ h
  obtain ⟨h3, h⟩ := hcut _ _ _ _ h
  exact ⟨h1, h2, h3, UInt32.toNat_inj.mp (leBytes_inj (toNat_lt_pow _) (toNat_lt_pow _) h)⟩

theorem digestBounds_inj {b c : IrBounds} (hb : b.Fits) (hc : c.Fits)
    (h : digestBounds b = digestBounds c) : b = c := by
  have hcut := fun w => selfDelimiting_leBytes w
  simp only [digestBounds, List.append_assoc] at h
  obtain ⟨h1, h⟩ := hcut 8 _ _ _ _ hb.maxSteps hc.maxSteps h
  obtain ⟨h2, h⟩ := hcut 8 _ _ _ _ hb.maxLoopIterations hc.maxLoopIterations h
  obtain ⟨h3, h⟩ := hcut 8 _ _ _ _ hb.maxTotalIterations hc.maxTotalIterations h
  obtain ⟨h4, h⟩ := hcut 4 _ _ _ _ hb.callSiteCount hc.callSiteCount h
  obtain ⟨h5, h⟩ := hcut 8 _ _ _ _ hb.maxDynamicCalls hc.maxDynamicCalls h
  obtain ⟨h6, h⟩ := hcut 4 _ _ _ _ hb.maxParallelWidth hc.maxParallelWidth h
  obtain ⟨h7, h⟩ := hcut 4 _ _ _ _ hb.maxParallelDepth hc.maxParallelDepth h
  obtain ⟨h8, h⟩ := hcut 4 _ _ _ _ hb.maxNestingDepth hc.maxNestingDepth h
  have h9 := leBytes_inj hb.maxValueGrowth hc.maxValueGrowth h
  cases b
  simp_all

theorem length_digestVersions (ir : StoredIr) : (digestVersions ir).length = 16 := by
  simp [digestVersions]

theorem length_digestBounds (b : IrBounds) : (digestBounds b).length = 56 := by
  simp [digestBounds]

/-! ### What the digest binds -/

/-- The lengths that the digest leaves out. -/
structure IrLayout where
  sourceHash : ℕ
  manifestHash : ℕ
  limitsHash : ℕ
  instructions : ℕ
  strings : List ℕ
  integers : ℕ
  deriving DecidableEq, Repr

/-- The lengths in bytes of the texts, and the numbers of instructions and integers. -/
def StoredIr.layout (ir : StoredIr) : IrLayout where
  sourceHash := (textBytes ir.sourceHash).length
  manifestHash := (textBytes ir.manifestHash).length
  limitsHash := (textBytes ir.limitsHash).length
  instructions := ir.instructions.length
  strings := ir.strings.map fun s => (textBytes s).length
  integers := ir.integers.length

/-- The same instructions, pools, bounds, versions and content hashes. -/
structure SameContent (p q : StoredIr) : Prop where
  version : p.version = q.version
  languageVersion : p.languageVersion = q.languageVersion
  compilerVersion : p.compilerVersion = q.compilerVersion
  parserVersion : p.parserVersion = q.parserVersion
  sourceHash : p.sourceHash = q.sourceHash
  manifestHash : p.manifestHash = q.manifestHash
  limitsHash : p.limitsHash = q.limitsHash
  instructions : p.instructions = q.instructions
  strings : p.strings = q.strings
  integers : p.integers = q.integers
  floats : p.floats = q.floats
  bounds : p.bounds = q.bounds

theorem SameContent.layout_eq {p q : StoredIr} (h : SameContent p q) : p.layout = q.layout := by
  simp [StoredIr.layout, h.sourceHash, h.manifestHash, h.limitsHash, h.instructions,
    h.strings, h.integers]

/-- What the hasher is fed determines the content, once the layout is known. -/
theorem sameContent_of_digestInput {p q : StoredIr} (hlayout : p.layout = q.layout)
    (h : digestInput p = digestInput q) : SameContent p q := by
  simp only [StoredIr.layout, IrLayout.mk.injEq] at hlayout
  obtain ⟨hsource, hmanifest, hlimits, hcount, hstrings, hintegers⟩ := hlayout
  simp only [digestInput, List.append_assoc] at h
  have hversions : (digestVersions p).length = (digestVersions q).length := by
    rw [length_digestVersions, length_digestVersions]
  have hbounds : (digestBounds p.bounds).length = (digestBounds q.bounds).length := by
    rw [length_digestBounds, length_digestBounds]
  obtain ⟨hv, h⟩ := List.append_inj h hversions
  obtain ⟨hs, h⟩ := List.append_inj h hsource
  obtain ⟨hm, h⟩ := List.append_inj h hmanifest
  obtain ⟨hl, h⟩ := List.append_inj h hlimits
  obtain ⟨hi, h⟩ := selfDelimiting_digestInstruction.flatMap (fun _ _ => trivial)
    (fun _ _ => trivial) hcount h
  obtain ⟨ht, h⟩ := flatMap_inj_of_lengths (fun _ _ => textBytes_inj) [0] hstrings h
  have hinteger : SelfDelimiting (fun _ => True) digestInteger :=
    .of_length (fun _ _ => length_leBytes 8 _) fun _ _ _ _ => digestInteger_inj
  obtain ⟨hn, h⟩ := hinteger.flatMap (fun _ _ => trivial) (fun _ _ => trivial) hintegers h
  obtain ⟨hf, hb⟩ := flatMap_inj_of_length (by decide) (fun _ => length_leBytes 8 _)
    (fun _ _ => digestFloat_inj) hbounds h
  obtain ⟨hversion, hlanguage, hcompiler, hparser⟩ := digestVersions_inj hv
  exact ⟨hversion, hlanguage, hcompiler, hparser, textBytes_inj hs, textBytes_inj hm,
    textBytes_inj hl, hi, ht, hn, hf, digestBounds_inj p.bounds_fit q.bounds_fit hb⟩

theorem stored_eq {p q : StoredIr} (h : SameContent p q) (hdigest : p.digest = q.digest)
    (hlocals : p.localCount = q.localCount) (hspans : p.spans = q.spans)
    (hschema : p.resultSchema = q.resultSchema) : p = q := by
  cases p
  obtain ⟨h1, h2, h3, h4, h5, h6, h7, h8, h9, h10, h11, h12⟩ := h
  subst_vars
  rfl

/-- For an injective hash: of programs with one digest, those with one layout have the
same content, and no others. The integrity check of a program that carries the digest
of a stored one lets it pass as the stored one if and only if it has the same layout
and the three fields that are not digested. -/
theorem digest_binds_iff {sha : List UInt8 → String} (hsha : Function.Injective sha)
    (p q : StoredIr) :
    (computeDigest sha p = computeDigest sha q → (SameContent p q ↔ p.layout = q.layout)) ∧
      (p.digest = computeDigest sha p → q.digest = p.digest →
        verifyIrIntegrity sha q = .ok () →
          (q = p ↔ p.layout = q.layout ∧ p.localCount = q.localCount ∧ p.spans = q.spans ∧
            p.resultSchema = q.resultSchema)) := by
  have hcontent : computeDigest sha p = computeDigest sha q →
      (SameContent p q ↔ p.layout = q.layout) := by
    intro hdigest
    constructor
    · exact SameContent.layout_eq
    · intro hlayout
      exact sameContent_of_digestInput hlayout (hsha hdigest)
  refine ⟨hcontent, ?_⟩
  intro hstored hcarried hverified
  have hdigest : computeDigest sha p = computeDigest sha q :=
    (hcarried.trans hstored).symm.trans (verifyIrIntegrity_eq_ok.mp hverified)
  constructor
  · rintro rfl
    exact ⟨rfl, rfl, rfl, rfl⟩
  · rintro ⟨hlayout, hlocals, hspans, hschema⟩
    exact (stored_eq ((hcontent hdigest).mpr hlayout) hcarried.symm hlocals hspans hschema).symm

/-- A program that loads two texts and emits the second. -/
def twoTexts (first second : String) : StoredIr where
  version := 1
  languageVersion := 1
  compilerVersion := 1
  parserVersion := 1
  sourceHash := "source"
  manifestHash := ""
  limitsHash := "limits"
  digest := "stored"
  instructions := [⟨.loadString 0, 0, by norm_num [IrOp.Fits]⟩, ⟨.pop, 0, trivial⟩,
    ⟨.loadString 1, 1, by norm_num [IrOp.Fits]⟩, ⟨.emit, 1, trivial⟩, ⟨.return_, 1, trivial⟩]
  localCount := 0
  bounds := ⟨100, 0, 0, 0, 0, 0, 0, 1, 10000⟩
  bounds_fit := by constructor <;> decide
  spans := [⟨0, 1⟩, ⟨2, 1⟩]
  strings := [first, second]
  integers := []
  floats := []
  resultSchema := none

/-- The character of that number. -/
def byteChar (b : UInt8) : Char where
  val := b.toUInt32
  valid := by
    have hlt := b.toNat_lt
    refine Or.inl ?_
    rw [UInt8.toNat_toUInt32]
    omega

def bytesText (bytes : List UInt8) : String := String.ofList (bytes.map byteChar)

theorem bytesText_injective : Function.Injective bytesText := by
  intro a b h
  refine List.map_injective_iff.mpr ?_ (String.ofList_injective h)
  intro x y hxy
  exact UInt8.toUInt32_inj.mp (congrArg Char.val hxy)

/-- Texts of one length each, under one digest, are the same. -/
theorem digest_binds_twoTexts :
    (twoTexts "a" "b").layout = (twoTexts "c" "d").layout ∧
      computeDigest bytesText (twoTexts "a" "b") ≠ computeDigest bytesText (twoTexts "c" "d") := by
  have hlayout : (twoTexts "a" "b").layout = (twoTexts "c" "d").layout := by decide
  refine ⟨hlayout, fun h => ?_⟩
  have hsame := ((digest_binds_iff bytesText_injective _ _).1 h).mpr hlayout
  exact absurd hsame.strings (by decide)

/-- A zero byte can be moved from one text to the other: the stored program and the
changed one have the same digest under every hash, and different texts. -/
theorem moved_separator_same_digest :
    ∃ p q : StoredIr, p.strings ≠ q.strings ∧
      ∀ sha, computeDigest sha p = computeDigest sha q ∧
        verifyIrIntegrity sha { q with digest := computeDigest sha p } = .ok () := by
  have hinput : digestInput (twoTexts "a\x00b" "c") = digestInput (twoTexts "a" "b\x00c") := by
    decide +kernel
  have hdigest : ∀ sha, computeDigest sha (twoTexts "a\x00b" "c") =
      computeDigest sha (twoTexts "a" "b\x00c") := fun sha => congrArg sha hinput
  refine ⟨twoTexts "a\x00b" "c", twoTexts "a" "b\x00c", by decide, fun sha => ⟨hdigest sha, ?_⟩⟩
  exact verifyIrIntegrity_eq_ok.mpr (hdigest sha)

end Codegg.ToolProgram
