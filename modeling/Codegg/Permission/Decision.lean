import Mathlib.Tactic
import Codegg.Library.ByteCode
import Codegg.Library.SeparatedFields

/-!
# Stored permission decisions and their signatures

A decision answers for a tool, a path, a capability scope and a session. When a key is
configured its row carries the hexadecimal form of a MAC. The signed text is the tool, the
path, the scope, the level and the time of the decision one after another, with nothing
between them, and the session is not part of it. A row without a scope also passes with the
signature of the older form, which has no scope field.
-/
namespace Codegg.Permission

open Codegg.Library

inductive PermissionLevel
  | deny
  | ask
  | allow
  deriving DecidableEq, Repr

def PermissionLevel.asStr : PermissionLevel → String
  | .allow => "allow"
  | .deny => "deny"
  | .ask => "ask"

structure PersistentDecision where
  tool : String
  path : Option String
  scope : Option String
  level : PermissionLevel
  createdAt : Int64
  signature : String
  sessionId : Option String
  deriving DecidableEq

/-- The 32 bytes of a signing key. -/
abbrev Key := Vector UInt8 32

/-- A message authentication code; it gives at least one byte. -/
structure Mac where
  digest : Key → ByteArray → List UInt8
  digest_ne_nil : ∀ key message, digest key message ≠ []

/-! ### The hexadecimal form -/

def hexByte (b : UInt8) : List Char := [(b.toNat / 16).digitChar, (b.toNat % 16).digitChar]

def hexEncode (bytes : List UInt8) : String := String.ofList (bytes.flatMap hexByte)

theorem digitChar_inj {m n : ℕ} (hm : m < 16) (hn : n < 16) (h : m.digitChar = n.digitChar) :
    m = n := by
  revert h
  interval_cases m <;> interval_cases n <;> simp [Nat.digitChar]

theorem hexByte_injective (a b : UInt8) (h : hexByte a = hexByte b) : a = b := by
  simp only [hexByte, List.cons.injEq, and_true] at h
  have ha := a.toNat_lt
  have hb := b.toNat_lt
  have hhigh := digitChar_inj (by omega) (by omega) h.1
  have hlow := digitChar_inj (by omega) (by omega) h.2
  exact UInt8.toNat_inj.mp (by omega)

theorem length_toList_hexEncode (bytes : List UInt8) :
    (hexEncode bytes).toList.length = 2 * bytes.length := by
  simp [hexEncode, hexByte, length_flatMap_of_length (w := 2)]

theorem hexEncode_injective : Function.Injective hexEncode := by
  intro xs ys h
  have hchars := congrArg String.toList h
  simp only [hexEncode] at hchars
  exact (flatMap_inj_of_length (w := 2) (r := []) (s := []) (by omega) (fun _ => rfl)
    hexByte_injective rfl (by simpa using hchars)).1

theorem hexEncode_ne_empty {bytes : List UInt8} (h : bytes ≠ []) : hexEncode bytes ≠ "" := by
  intro he
  have hlen := length_toList_hexEncode bytes
  have hpos := List.length_pos_of_ne_nil h
  rw [he, String.toList_empty, List.length_nil] at hlen
  omega

/-! ### Signatures -/

/-- What the updates of the MAC add up to. -/
def signedText (tool : String) (path scope : Option String) (level : PermissionLevel)
    (timestamp : Int64) : String :=
  tool ++ path.getD "" ++ scope.getD "" ++ level.asStr ++ timestamp.toInt.repr

def computeSignature (mac : Mac) (tool : String) (path scope : Option String)
    (level : PermissionLevel) (timestamp : Int64) (key : Key) : String :=
  hexEncode (mac.digest key (signedText tool path scope level timestamp).toByteArray)

/-- The form from before there were scopes. -/
def computeLegacySignature (mac : Mac) (tool : String) (path : Option String)
    (level : PermissionLevel) (timestamp : Int64) (key : Key) : String :=
  hexEncode (mac.digest key
    (tool ++ path.getD "" ++ level.asStr ++ timestamp.toInt.repr).toByteArray)

def verifySignature (mac : Mac) (decision : PersistentDecision) (key : Key) : Bool :=
  if computeSignature mac decision.tool decision.path decision.scope decision.level
      decision.createdAt key = decision.signature then
    true
  else if decision.scope.isNone then
    computeLegacySignature mac decision.tool decision.path decision.level decision.createdAt
      key = decision.signature
  else
    false

variable {mac : Mac} {key : Key}

theorem computeSignature_ne_empty (tool : String) (path scope : Option String)
    (level : PermissionLevel) (timestamp : Int64) :
    computeSignature mac tool path scope level timestamp key ≠ "" :=
  hexEncode_ne_empty (mac.digest_ne_nil key _)

/-- Without a scope the older form signs the same text. -/
theorem computeLegacySignature_eq (tool : String) (path : Option String)
    (level : PermissionLevel) (timestamp : Int64) :
    computeLegacySignature mac tool path level timestamp key =
      computeSignature mac tool path none level timestamp key := by
  simp [computeLegacySignature, computeSignature, signedText]

/-- So the older form accepts nothing that the present one refuses. -/
theorem verifySignature_iff (d : PersistentDecision) :
    verifySignature mac d key = true ↔
      computeSignature mac d.tool d.path d.scope d.level d.createdAt key = d.signature := by
  unfold verifySignature
  split
  · rename_i h
    simp [h]
  · rename_i h
    cases hscope : d.scope with
    | none => simp [computeLegacySignature_eq]
    | some scope =>
      rw [hscope] at h
      simp [h]

end Codegg.Permission
