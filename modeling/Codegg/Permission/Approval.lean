import Codegg.Library.ByteText
import Codegg.Permission.ShellWords

/-!
# Bounded texts of approval records

Each text of a request or a decision is cut to a number of bytes. `String::truncate` panics
between the bytes of a character, and NUL characters are removed after the cut.
-/
namespace Codegg.Permission

open Codegg.Library

/-- `none` is a panic. -/
def truncateBounded (value : List Char) (maxLen : ℕ) : Option (List Char) :=
  if byteLen value > maxLen then
    if isCharBoundary maxLen value then some ((takeBytes maxLen value).filter (· ≠ '\x00')) else none
  else some (value.filter (· ≠ '\x00'))

structure ApprovalRequest where
  tool : List Char
  path : Option (List Char)
  argsSummary : Option (List Char)
  escalationReasons : List (List Char)
  effectMetadata : Option (List Char)
  policyRevision : Option (List Char)
  sessionId : List Char
  turnId : Option (List Char)
  deriving DecidableEq, Repr

inductive ApprovalDecision
  | allowed (source reason : List Char)
  | denied (source reason : List Char)
  | deferUser (source reason : List Char)
  deriving DecidableEq, Repr

/-- The arguments are given as they are, each under the field it is for. -/
def ApprovalRequest.new (args : ApprovalRequest) : Option ApprovalRequest := do
  return {
    tool := ← truncateBounded args.tool 128
    path := ← (args.path.bind fun p => if (trim p).isEmpty then none else some (trim p)).mapM
      (truncateBounded · 1024)
    argsSummary := ← args.argsSummary.mapM (truncateBounded · 512)
    escalationReasons := ← (args.escalationReasons.take 8).mapM (truncateBounded · 512)
    effectMetadata := ← args.effectMetadata.mapM (truncateBounded · 512)
    policyRevision := ← args.policyRevision.mapM (truncateBounded · 256)
    sessionId := ← truncateBounded args.sessionId 256
    turnId := ← args.turnId.mapM (truncateBounded · 256) }

namespace ApprovalDecision

def bounded (kind : List Char → List Char → ApprovalDecision) (source reason : List Char) :
    Option ApprovalDecision := do
  return kind (← truncateBounded source 64) (← truncateBounded reason 512)

def allow := bounded allowed

def deny := bounded denied

def defer := bounded deferUser

end ApprovalDecision

/-- The longest start of a text within the limit, less its NUL characters. -/
def boundedText (limit : ℕ) (text : List Char) : List Char :=
  (takeBytes limit text).filter (· ≠ '\x00')

/-- The text is within the limit, or the limit is at the start of a character. -/
def fits (limit : ℕ) (text : List Char) : Bool := byteLen text ≤ limit || isCharBoundary limit text

/-- The texts of a request, each with its limit. -/
def ApprovalRequest.texts (r : ApprovalRequest) : List (ℕ × List Char) :=
  (128, r.tool) :: (256, r.sessionId) ::
    (r.path.toList.map (1024, ·) ++ r.argsSummary.toList.map (512, ·) ++
      r.escalationReasons.map (512, ·) ++ r.effectMetadata.toList.map (512, ·) ++
      r.policyRevision.toList.map (256, ·) ++ r.turnId.toList.map (256, ·))

/-- The texts of the arguments that are stored, the path without the blanks around it. -/
def ApprovalRequest.kept (args : ApprovalRequest) : ApprovalRequest :=
  { args with
    path := args.path.bind fun p => if (trim p).isEmpty then none else some (trim p)
    escalationReasons := args.escalationReasons.take 8 }

/-- What a stored request has of its arguments. -/
structure ApprovalRequest.Stores (args r : ApprovalRequest) : Prop where
  limits : ∀ t ∈ r.texts, byteLen t.2 ≤ t.1
  tool : r.tool = boundedText 128 args.tool
  path : ∀ t ∈ r.path, ∃ p ∈ args.path, t = boundedText 1024 p
  argsSummary : r.argsSummary = args.argsSummary.map (boundedText 512)
  escalationReasons : r.escalationReasons = (args.escalationReasons.take 8).map (boundedText 512)
  effectMetadata : r.effectMetadata = args.effectMetadata.map (boundedText 512)
  policyRevision : r.policyRevision = args.policyRevision.map (boundedText 256)
  sessionId : r.sessionId = boundedText 256 args.sessionId
  turnId : r.turnId = args.turnId.map (boundedText 256)

/-- What a stored decision has of its arguments. -/
def ApprovalDecision.Stores (source reason : List Char) : ApprovalDecision → Prop
  | allowed s r | denied s r | deferUser s r =>
    byteLen s ≤ 64 ∧ byteLen r ≤ 512 ∧ s = boundedText 64 source ∧ r = boundedText 512 reason

theorem byteLen_takeBytes_le (n : ℕ) (cs : List Char) : byteLen (takeBytes n cs) ≤ n := by
  induction cs generalizing n with
  | nil => simp [takeBytes]
  | cons c cs ih =>
    rw [takeBytes]
    split
    · have hrest := ih (n - c.utf8Size)
      rw [byteLen_cons]
      omega
    · simp

theorem takeBytes_of_byteLen_le {n : ℕ} {cs : List Char} (h : byteLen cs ≤ n) :
    takeBytes n cs = cs := by
  have happend := takeBytes_append cs [] (n - byteLen cs)
  rwa [Nat.add_sub_cancel' h, List.append_nil, takeBytes, List.append_nil] at happend

theorem byteLen_boundedText_le (limit : ℕ) (text : List Char) :
    byteLen (boundedText limit text) ≤ limit := by
  have hfilter : ∀ cs : List Char, byteLen (cs.filter (· ≠ '\x00')) ≤ byteLen cs := fun cs =>
    (List.filter_sublist.map Char.utf8Size).sum_le_sum (by simp)
  exact (hfilter _).trans (byteLen_takeBytes_le limit text)

theorem truncateBounded_eq (value : List Char) (maxLen : ℕ) :
    truncateBounded value maxLen = if fits maxLen value then some (boundedText maxLen value) else none := by
  by_cases hle : byteLen value ≤ maxLen
  · have hwhole : takeBytes maxLen value = value := takeBytes_of_byteLen_le hle
    simp [truncateBounded, fits, boundedText, hle, hwhole, Nat.not_lt.2 hle]
  · simp [truncateBounded, fits, boundedText, hle, Nat.not_le.1 hle]

/-- A partial function is taken of a list exactly if it is of each member. -/
theorem mapM_guarded {α β : Type} (p : α → Bool) (f : α → β) (l : List α) :
    (l.mapM fun a => if p a then some (f a) else none) = if l.all p then some (l.map f) else none := by
  induction l with
  | nil => rfl
  | cons a l ih =>
    rw [List.mapM_cons, ih]
    cases hp : p a <;> cases hall : l.all p <;> simp [hp, hall]

theorem option_mapM_guarded {α β : Type} (p : α → Bool) (f : α → β) (o : Option α) :
    (o.mapM fun a => if p a then some (f a) else none) =
      if o.toList.all p then some (o.map f) else none := by
  cases o with
  | none => rfl
  | some a => cases hp : p a <;> simp [hp]

/-- The request that is made of the arguments if nothing panics. -/
def ApprovalRequest.cut (args : ApprovalRequest) : ApprovalRequest where
  tool := boundedText 128 args.tool
  path := args.kept.path.map (boundedText 1024)
  argsSummary := args.argsSummary.map (boundedText 512)
  escalationReasons := args.kept.escalationReasons.map (boundedText 512)
  effectMetadata := args.effectMetadata.map (boundedText 512)
  policyRevision := args.policyRevision.map (boundedText 256)
  sessionId := boundedText 256 args.sessionId
  turnId := args.turnId.map (boundedText 256)

theorem guarded_bind {α β : Type} (b : Bool) (a : α) (f : α → Option β) :
    ((if b then some a else none) >>= f) = if b then f a else none := by
  cases b <;> rfl

/-- A request is made exactly if no text that it keeps is cut inside a character. -/
theorem ApprovalRequest.new_eq (args : ApprovalRequest) :
    new args = if args.kept.texts.all fun t => fits t.1 t.2 then some args.cut else none := by
  unfold new
  simp only [truncateBounded_eq, mapM_guarded, option_mapM_guarded, guarded_bind]
  simp only [texts, kept, cut, List.all_cons, List.all_append, List.all_map, Function.comp_def]
  split_ifs <;> simp_all only [Bool.and_eq_true] <;> grind

theorem ApprovalRequest.stores_cut_iff (args : ApprovalRequest) :
    args.Stores args.cut ↔
      ∀ p ∈ args.path, trim p ≠ [] → boundedText 1024 (trim p) = boundedText 1024 p := by
  constructor
  · intro h p hp hne
    obtain ⟨q, hq, heq⟩ := h.path (boundedText 1024 (trim p)) (by simp_all [cut, kept])
    cases hp.symm.trans hq
    exact heq
  · intro h
    refine ⟨?_, rfl, ?_, rfl, rfl, rfl, rfl, rfl, rfl⟩
    · simp [texts, cut, or_imp, forall_and, byteLen_boundedText_le]
    · intro t ht
      simp only [cut, kept, Option.mem_def, Option.map_eq_some_iff, Option.bind_eq_some_iff] at ht
      obtain ⟨_, ⟨p, hp, hkept⟩, rfl⟩ := ht
      split_ifs at hkept with hblank
      cases hkept
      exact ⟨p, hp, h p hp (by simpa using hblank)⟩

theorem ApprovalDecision.bounded_iff {kind : List Char → List Char → ApprovalDecision}
    {source reason : List Char} (hkind : ∀ s r, (kind s r).Stores source reason ↔
      byteLen s ≤ 64 ∧ byteLen r ≤ 512 ∧ s = boundedText 64 source ∧ r = boundedText 512 reason) :
    (∃ d, bounded kind source reason = some d ∧ d.Stores source reason) ↔
      fits 64 source = true ∧ fits 512 reason = true := by
  simp only [bounded, truncateBounded_eq, guarded_bind]
  cases fits 64 source <;> cases fits 512 reason <;>
    simp [hkind, byteLen_boundedText_le]

/-- A request returns with every text bounded exactly if no text that it keeps is cut inside a
character and the path has the same start without its blanks; a decision, if neither of its texts
is. -/
theorem approval_texts_bounded_iff (args : ApprovalRequest) (source reason : List Char) :
    ((∃ r, ApprovalRequest.new args = some r ∧ args.Stores r) ↔
      (∀ t ∈ args.kept.texts, fits t.1 t.2 = true) ∧
        ∀ p ∈ args.path, trim p ≠ [] → boundedText 1024 (trim p) = boundedText 1024 p) ∧
    ∀ make ∈ [ApprovalDecision.allow, ApprovalDecision.deny, ApprovalDecision.defer],
      (∃ d, make source reason = some d ∧ d.Stores source reason) ↔
        fits 64 source = true ∧ fits 512 reason = true := by
  constructor
  · rw [← List.all_eq_true, ← args.stores_cut_iff, args.new_eq]
    split_ifs with hfits <;> simp [hfits]
  · simp only [List.forall_mem_cons, List.not_mem_nil, false_imp_iff, implies_true, and_true]
    exact ⟨ApprovalDecision.bounded_iff fun _ _ => .rfl,
      ApprovalDecision.bounded_iff fun _ _ => .rfl,
      ApprovalDecision.bounded_iff fun _ _ => .rfl⟩

/-- A tool of 127 letters and an `é` is cut between the two bytes of the `é`. -/
theorem tool_cut_inside_character :
    ¬∀ args : ApprovalRequest, ∃ r, ApprovalRequest.new args = some r ∧ args.Stores r := by
  intro h
  obtain ⟨r, hr, -⟩ := h ⟨List.replicate 127 'a' ++ ['é'], none, none, [], none, none, [], none⟩
  have hnone : ApprovalRequest.new ⟨List.replicate 127 'a' ++ ['é'], none, none, [], none, none, [],
      none⟩ = none := by decide +kernel
  rw [hnone] at hr
  cases hr

end Codegg.Permission
