import Codegg.Permission.Store
import Mathlib

/-!
# What the signature of a stored decision binds

Unless two texts have the same code, the rows that pass with one signature agree on the level, on
the time and on the tool, path and scope read as one text. They need not agree on
where the one of these fields ends and the next begins, and not at all on the session.
-/
namespace Codegg.Permission

open Codegg.Library PersistentDecision PermissionStore

variable {mac : Mac} {key : Key} {d d' : PersistentDecision}

/-- No other row passes with the signature of `d`. -/
def TamperEvident (mac : Mac) (key : Key) (d : PersistentDecision) : Prop :=
  ∀ d' : PersistentDecision, verifySignature mac d' key = true → d'.signature = d.signature →
    d'.tool = d.tool ∧ d'.path = d.path ∧ d'.scope = d.scope ∧ d'.level = d.level ∧
      d'.createdAt = d.createdAt ∧ d'.sessionId = d.sessionId

/-! ### What is bound -/

/-- A text whose end is made of characters of one class is cut before that end in one way. -/
theorem append_cons_inj {P : Char → Bool} {xs xs' ds ds' : List Char} {c c' : Char}
    (hc : P c = false) (hc' : P c' = false) (hds : ∀ a ∈ ds, P a = true)
    (hds' : ∀ a ∈ ds', P a = true) (h : xs ++ c :: ds = xs' ++ c' :: ds') :
    xs = xs' ∧ c = c' ∧ ds = ds' := by
  have htake : ∀ {ys es : List Char} {b : Char}, P b = false → (∀ a ∈ es, P a = true) →
      (ys ++ b :: es).reverse.takeWhile P = es.reverse := by
    intro ys es b hb hes
    rw [List.reverse_append, List.reverse_cons, List.append_assoc,
      List.takeWhile_append_of_pos (by simpa using hes)]
    simp [hb]
  have hend : ds.reverse = ds'.reverse := by
    have hleft : (xs ++ c :: ds).reverse.takeWhile P = ds.reverse := htake hc hds
    rw [← hleft, h, htake hc' hds']
  have hds : ds = ds' := List.reverse_injective hend
  subst hds
  have hsame : (xs ++ [c]) ++ ds = (xs' ++ [c']) ++ ds := by simpa using h
  have hfront := List.append_cancel_right hsame
  obtain ⟨hxs, hlast⟩ := List.append_inj' hfront rfl
  exact ⟨hxs, by simpa using hlast, rfl⟩

def PermissionLevel.lastChar : PermissionLevel → Char
  | .allow => 'w'
  | .deny => 'y'
  | .ask => 'k'

theorem PermissionLevel.lastChar_injective : Function.Injective PermissionLevel.lastChar := by
  intro a b h
  cases a <;> cases b <;> first | rfl | simp [PermissionLevel.lastChar] at h

theorem PermissionLevel.exists_toList_asStr (level : PermissionLevel) :
    ∃ front, level.asStr.toList = front ++ [level.lastChar] := by
  cases level with
  | deny => exact ⟨['d', 'e', 'n'], rfl⟩
  | ask => exact ⟨['a', 's'], rfl⟩
  | allow => exact ⟨['a', 'l', 'l', 'o'], rfl⟩

/-- The characters of a time. -/
def isTimeChar (c : Char) : Bool := c.isDigit || c = '-'

theorem isTimeChar_lastChar (level : PermissionLevel) : isTimeChar level.lastChar = false := by
  cases level <;> decide

theorem isTimeChar_of_mem {n : ℤ} {c : Char} (h : c ∈ n.repr.toList) : isTimeChar c = true := by
  rcases mem_intRepr h with hdigit | rfl
  · simp [isTimeChar, hdigit]
  · rfl

/-- The tool, the path and the scope as they are signed. -/
def PersistentDecision.subject (d : PersistentDecision) : String :=
  d.tool ++ d.path.getD "" ++ d.scope.getD ""

theorem signedText_inj
    (h : signedText d.tool d.path d.scope d.level d.createdAt =
      signedText d'.tool d'.path d'.scope d'.level d'.createdAt) :
    d.subject = d'.subject ∧ d.level = d'.level ∧ d.createdAt = d'.createdAt := by
  obtain ⟨front, hfront⟩ := d.level.exists_toList_asStr
  obtain ⟨front', hfront'⟩ := d'.level.exists_toList_asStr
  have hchars := congrArg String.toList h
  simp only [signedText, String.toList_append, hfront, hfront', List.append_assoc,
    List.singleton_append] at hchars
  simp only [← List.append_assoc] at hchars
  obtain ⟨hbefore, hlast, htime⟩ := append_cons_inj (isTimeChar_lastChar d.level)
    (isTimeChar_lastChar d'.level) (fun a ha => isTimeChar_of_mem ha)
    (fun a ha => isTimeChar_of_mem ha) hchars
  have hlevel := PermissionLevel.lastChar_injective hlast
  have hwhole : front ++ [d.level.lastChar] = front' ++ [d.level.lastChar] := by
    rw [← hfront, hlevel, hfront']
  have hfronts : front = front' := List.append_cancel_right hwhole
  rw [hfronts] at hbefore
  refine ⟨String.toList_inj.mp ?_, hlevel, ?_⟩
  · simpa [subject] using List.append_cancel_right hbefore
  · exact Int64.toInt_inj.mp (intRepr_injective (String.toList_inj.mp htime))

/-- The text that is signed. -/
def PersistentDecision.message (d : PersistentDecision) : String :=
  signedText d.tool d.path d.scope d.level d.createdAt

theorem message_eq_iff : d'.message = d.message ↔
    d'.subject = d.subject ∧ d'.level = d.level ∧ d'.createdAt = d.createdAt := by
  refine ⟨signedText_inj, ?_⟩
  rintro ⟨hsubject, hlevel, htime⟩
  simp only [subject] at hsubject
  simp [message, signedText, hsubject, hlevel, htime]

/-- The rows that pass with the signature of a row that passes agree with it, or the two texts
have the same code. -/
theorem verifySignature_iff_bound (hd : verifySignature mac d key = true)
    (hs : d'.signature = d.signature) :
    verifySignature mac d' key = true ↔
      (d'.subject = d.subject ∧ d'.level = d.level ∧ d'.createdAt = d.createdAt) ∨
        d'.message ≠ d.message ∧
          mac.digest key d'.message.toByteArray = mac.digest key d.message.toByteArray := by
  rw [verifySignature_iff] at hd ⊢
  rw [hs, ← hd, ← message_eq_iff]
  refine hexEncode_injective.eq_iff.trans ?_
  change mac.digest key d'.message.toByteArray = mac.digest key d.message.toByteArray ↔ _
  by_cases h : d'.message = d.message <;> simp [h]

/-! ### What is not bound -/

/-- The session is not signed. -/
theorem verifySignature_withSession (sid : Option String)
    (hd : verifySignature mac d key = true) :
    verifySignature mac { d with sessionId := sid } key = true := by
  exact hd

/-- A row rewritten to no session answers for every session. -/
theorem getDecisionScoped_withoutSession (hd : verifySignature mac d key = true)
    (storePath sid : Option String) :
    getDecisionScoped mac (some key)
      ⟨[{ d with sessionId := none }], storePath⟩ d.tool d.path d.scope sid = some d.level := by
  have hsigned : ∀ e ∈ [{ d with sessionId := none }],
      PermissionStore.SignedBy mac (some key) e := by
    intro e he
    rw [List.mem_singleton] at he
    subst he
    exact ((verifySignature_iff _).mp hd).symm
  rw [getDecisionScoped_eq hsigned]
  cases sid <;>
    simp [levelFor, levelOf, latestRow, PersistentDecision.key]

/-- No row is tamper-evident: with the session taken out it passes with the same signature,
and then answers for every session. -/
theorem not_tamperEvident (hd : verifySignature mac d key = true) :
    ¬ TamperEvident mac key d ∧
      ∀ storePath sid, PermissionStore.getDecisionScoped mac (some key)
        ⟨[{ d with sessionId := none }], storePath⟩ d.tool d.path d.scope sid = some d.level := by
  refine ⟨fun h => ?_, fun storePath sid => getDecisionScoped_withoutSession hd storePath sid⟩
  have hsession : ∀ sid, sid = d.sessionId := fun sid =>
    (h { d with sessionId := sid } (verifySignature_withSession sid hd) rfl).2.2.2.2.2
  exact absurd ((hsession none).trans (hsession (some "")).symm) (by simp)

/-! ### A grant for one session -/

/-- Distinct texts get distinct codes; the text of `sampleGrant` gets its HMAC-SHA256. -/
def sampleMac : Mac where
  digest _ message :=
    if message = "bashcmd:cargoallow1700000000".toByteArray then
      [178, 236, 153, 70, 126, 147, 187, 178, 23, 153, 120, 151, 245, 227, 182, 240,
        176, 117, 106, 216, 90, 224, 86, 204, 205, 71, 14, 140, 156, 125, 53, 42]
    else 0 :: message.data.toList
  digest_ne_nil _ message := by split <;> simp

theorem sampleMac_injective (key : Key) : Function.Injective (sampleMac.digest key) := by
  intro m m' h
  simp only [sampleMac] at h
  split at h <;> split at h
  · simp_all
  · simp at h
  · simp at h
  · simp only [List.cons.injEq, true_and, Array.toList_inj] at h
    exact ByteArray.ext h

def sampleKey : Key := ⟨"0123456789abcdef0123456789abcdef".toUTF8.data, by decide⟩

/-- A grant of `cargo` commands to one session. -/
def sampleGrant : PersistentDecision where
  tool := "bash"
  path := none
  scope := some "cmd:cargo"
  level := .allow
  createdAt := 1700000000
  signature := computeSignature sampleMac "bash" none (some "cmd:cargo") .allow 1700000000 sampleKey
  sessionId := some "session-1"

theorem sampleGrant_verifies : verifySignature sampleMac sampleGrant sampleKey = true :=
  (verifySignature_iff _).mpr rfl

/-- The end of the path and the beginning of the scope are not signed. -/
theorem sampleGrant_withoutScope :
    verifySignature sampleMac { sampleGrant with path := some "cmd:cargo", scope := none }
      sampleKey = true :=
  (verifySignature_iff_bound sampleGrant_verifies rfl).mpr (.inl ⟨by decide, rfl, rfl⟩)

theorem sampleGrant_not_tamperEvident :
    ¬ TamperEvident sampleMac sampleKey sampleGrant ∧
      ∀ storePath sid, PermissionStore.getDecisionScoped sampleMac (some sampleKey)
        ⟨[{ sampleGrant with sessionId := none }], storePath⟩ "bash" none (some "cmd:cargo") sid =
          some .allow :=
  not_tamperEvident sampleGrant_verifies

/-- The grant with its session taken out passes with the same signature. -/
theorem session_grant_becomes_global :
    Function.Injective (sampleMac.digest sampleKey) ∧
      ¬ ∀ d d' : PersistentDecision, verifySignature sampleMac d sampleKey = true →
        verifySignature sampleMac d' sampleKey = true → d'.signature = d.signature →
          d'.tool = d.tool ∧ d'.path = d.path ∧ d'.scope = d.scope ∧ d'.level = d.level ∧
            d'.createdAt = d.createdAt ∧ d'.sessionId = d.sessionId := by
  refine ⟨sampleMac_injective sampleKey, fun h => ?_⟩
  have hsame := h sampleGrant { sampleGrant with sessionId := none } sampleGrant_verifies
    (verifySignature_withSession none sampleGrant_verifies) rfl
  exact absurd hsame.2.2.2.2.2 (by decide)

end Codegg.Permission