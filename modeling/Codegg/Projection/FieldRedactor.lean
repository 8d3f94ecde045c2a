import Codegg.Library.ByteText
import Codegg.Projection.RedactionRules
import Codegg.ToolProgram.Json

/-!
# Redaction of JSON payloads

Every string of a payload is scanned with the rules of a field, which is chosen by the
key that stands nearest above the string and forgotten inside an array. A string that no
rule matches is passed on as it is, also below a key that names a secret.
-/
namespace Codegg.Projection

open Codegg.Library

/-! ### One text -/

inductive RedactionResult where
  | unchanged
  | redacted (text rule : String) (matchCount : ℕ)
  | downgraded (marker : String) (originalBytes : ℕ)
  | failed (reason : String)
  deriving DecidableEq, Repr

def maxRedactionInputBytes : ℕ := 64 * 1024

def maxHeuristicMatches : ℕ := 256

/-- The variables of the loop over the rules. -/
structure RulePass where
  current : String
  totalMatches : ℕ
  applied : Option String
  deriving DecidableEq, Repr

section

variable (regex : RegexCrate)

def applyRule (pass : RulePass) (rule : RedactionRule) : RulePass :=
  let m := regex.find rule.pattern pass.current
  if 0 < m.found.length then
    ⟨replaceAll rule m, pass.totalMatches + m.found.length, some rule.name⟩
  else pass

def redactText (field : FieldName) (text : String) : RedactionResult :=
  if text.isEmpty then .unchanged
  else if maxRedactionInputBytes < text.utf8ByteSize then
    .downgraded ("[REDACTED:oversized:" ++ toString text.utf8ByteSize ++ "bytes]")
      text.utf8ByteSize
  else if field.rules.isEmpty then .failed "no compiled rules"
  else
    let pass := field.rules.foldl (applyRule regex) ⟨text, 0, none⟩
    if pass.totalMatches = 0 then .unchanged
    else if maxHeuristicMatches < pass.totalMatches then .failed "too_many_matches"
    else .redacted pass.current (pass.applied.getD "typed") pass.totalMatches

/-! ### A JSON value -/

structure RedactionSummary where
  redactedCounts : List (FieldName × String × ℕ) := []
  downgradedCounts : List (FieldName × ℕ) := []
  failures : List (FieldName × String) := []
  deriving DecidableEq, Repr

namespace RedactionSummary

def recordRedaction (s : RedactionSummary) (field : FieldName) (rule : String) :
    RedactionSummary :=
  if s.redactedCounts.any fun e => e.1 = field ∧ e.2.1 = rule then
    { s with redactedCounts := s.redactedCounts.map fun e =>
        if e.1 = field ∧ e.2.1 = rule then (e.1, e.2.1, e.2.2 + 1) else e }
  else { s with redactedCounts := s.redactedCounts ++ [(field, rule, 1)] }

def recordDowngrade (s : RedactionSummary) (field : FieldName) (bytes : ℕ) : RedactionSummary :=
  if s.downgradedCounts.any fun e => e.1 = field then
    { s with downgradedCounts := s.downgradedCounts.map fun e =>
        if e.1 = field then (e.1, min (e.2 + bytes) (2 ^ 64 - 1)) else e }
  else { s with downgradedCounts := s.downgradedCounts ++ [(field, bytes)] }

def recordFailure (s : RedactionSummary) (field : FieldName) (reason : String) :
    RedactionSummary :=
  if s.failures.any fun e => e.1 = field ∧ e.2 = reason then s
  else { s with failures := s.failures ++ [(field, reason)] }

end RedactionSummary

/-- ASCII letters only. -/
def lowerKey (key : String) : List Char := key.toList.map Char.toLower

def secretPatterns : List String :=
  ["api_key", "apikey", "api-key", "access_token", "secret_key", "secret", "auth_token",
    "password", "passwd", "pwd", "client_secret", "private_key", "credential", "bearer",
    "session_token", "refresh_token", "id_token"]

def isSecretKey (lower : List Char) : Bool :=
  secretPatterns.any fun p =>
    lower = p.toList ∨ '_' :: p.toList <:+ lower ∨ p.toList ++ ['_'] <+: lower ∨
      p.toList <:+: lower

def classifyObjectKey (key : String) : FieldName :=
  let lower := lowerKey key
  if isSecretKey lower ∨ "authorization".toList <:+: lower ∨ lower = "auth".toList then
    .authorization
  else if lower = "environment".toList ∨ lower = "env".toList ∨ "_env".toList <:+ lower then
    .environment
  else if lower = "answer".toList ∨ "_answer".toList <:+ lower ∨ "response".toList <:+: lower then
    .answer
  else if lower = "prompt".toList ∨ "_prompt".toList <:+ lower ∨ "question".toList <:+: lower then
    .prompt
  else if lower = "command".toList ∨ lower = "args".toList ∨ lower = "arguments".toList then
    .toolArgument
  else if lower = "output".toList ∨ lower = "result".toList ∨ lower = "stdout".toList ∨
      lower = "stderr".toList then .toolOutput
  else if lower = "url".toList ∨ lower = "path".toList ∨ lower = "uri".toList then .locator
  else if lower = "payload".toList ∨ "connection".toList <:+: lower then .connectionPayload
  else .text

/-- The field of the items of an array. -/
def itemField : FieldName → FieldName
  | .toolArgument => .toolArgument
  | .toolOutput => .toolOutput
  | .environment => .environment
  | _ => .text

/-- The string that takes the place of another one. -/
def redactedString (field : FieldName) (s : String) : String :=
  if s.isEmpty then s
  else
    match redactText regex field s with
    | .unchanged => s
    | .redacted text _ _ => text
    | .downgraded marker _ => marker
    | .failed reason => "[REDACTED:fail-closed:" ++ reason ++ "]"

def recordString (field : FieldName) (s : String) (summary : RedactionSummary) :
    RedactionSummary :=
  if s.isEmpty then summary
  else
    match redactText regex field s with
    | .unchanged => summary
    | .redacted _ rule _ => summary.recordRedaction field rule
    | .downgraded _ originalBytes => summary.recordDowngrade field originalBytes
    | .failed reason => summary.recordFailure field reason

mutual

def redactJsonInner :
    ToolProgram.Json → FieldName → RedactionSummary → ToolProgram.Json × RedactionSummary
  | .string s, field, summary =>
    (.string (redactedString regex field s), recordString regex field s summary)
  | .array items, field, summary =>
    let r := redactItems items (itemField field) summary
    (.array r.1, r.2)
  | .object fields, _, summary =>
    let r := redactFields fields summary
    (.object r.1, r.2)
  | .null, _, summary => (.null, summary)
  | .bool b, _, summary => (.bool b, summary)
  | .number n, _, summary => (.number n, summary)

def redactItems : List ToolProgram.Json → FieldName → RedactionSummary →
    List ToolProgram.Json × RedactionSummary
  | [], _, summary => ([], summary)
  | item :: items, field, summary =>
    let r := redactJsonInner item field summary
    let rs := redactItems items field r.2
    (r.1 :: rs.1, rs.2)

def redactFields : List (String × ToolProgram.Json) → RedactionSummary →
    List (String × ToolProgram.Json) × RedactionSummary
  | [], summary => ([], summary)
  | (key, child) :: fields, summary =>
    let r := redactJsonInner child (classifyObjectKey key) summary
    let rs := redactFields fields r.2
    ((key, r.1) :: rs.1, rs.2)

end

def redactJson (value : ToolProgram.Json) (field : FieldName) :
    ToolProgram.Json × RedactionSummary :=
  redactJsonInner regex value field {}

/-- Some rule of the field finds something in the text. -/
def FieldMatches (field : FieldName) (text : String) : Prop :=
  ∃ rule ∈ field.rules, 0 < (regex.find rule.pattern text).found.length

/-- After some of the rules: the text is marked as soon as one of them has matched. -/
structure Passed (rules : List RedactionRule) (text : String) (pass : RulePass) : Prop where
  untouched : pass.totalMatches = 0 → pass.current = text
  marked : pass.totalMatches ≠ 0 → Marked pass.current
  matched : pass.totalMatches ≠ 0 ↔
    ∃ rule ∈ rules, 0 < (regex.find rule.pattern text).found.length

theorem Passed.step {rules : List RedactionRule} {text : String} {pass : RulePass}
    (h : Passed regex rules text pass) {rule : RedactionRule}
    (hrule : markerStart <:+: rule.replacement.toList) :
    Passed regex (rules ++ [rule]) text (applyRule regex pass rule) := by
  unfold applyRule
  by_cases hfound : 0 < (regex.find rule.pattern pass.current).found.length
  · rw [if_pos hfound]
    refine ⟨fun hzero => ?_, fun _ => replaceAll_marked hrule hfound, fun _ => ?_, fun _ => ?_⟩
    · dsimp only at hzero
      omega
    · by_cases hbefore : pass.totalMatches = 0
      · rw [h.untouched hbefore] at hfound
        exact ⟨rule, by simp, hfound⟩
      · obtain ⟨r, hr, hmatch⟩ := h.matched.mp hbefore
        exact ⟨r, List.mem_append_left _ hr, hmatch⟩
    · dsimp only
      omega
  · rw [if_neg hfound]
    refine ⟨h.untouched, h.marked, fun hmatched => ?_, ?_⟩
    · obtain ⟨r, hr, hmatch⟩ := h.matched.mp hmatched
      exact ⟨r, List.mem_append_left _ hr, hmatch⟩
    · rintro ⟨r, hr, hmatch⟩
      rcases List.mem_append.mp hr with hr | hr
      · exact h.matched.mpr ⟨r, hr, hmatch⟩
      · rw [List.mem_singleton.mp hr] at hmatch
        -- the rule finds nothing in the text as it is now, which is then another one
        intro hzero
        rw [h.untouched hzero] at hfound
        exact hfound hmatch

theorem foldl_passed {rules : List RedactionRule}
    (h : ∀ rule ∈ rules, markerStart <:+: rule.replacement.toList) (text : String) :
    Passed regex rules text (rules.foldl (applyRule regex) ⟨text, 0, none⟩) := by
  induction rules using List.reverseRecOn with
  | nil => exact ⟨fun _ => rfl, fun hne => absurd rfl hne, fun hne => absurd rfl hne,
      fun ⟨_, hmem, _⟩ => nomatch hmem⟩
  | append_singleton rules rule ih =>
    rw [List.foldl_append]
    exact (ih fun r hr => h r (List.mem_append_left _ hr)).step regex (h rule (by simp))

/-- Longer than what is scanned at all. -/
def Oversized (s : String) : Prop := maxRedactionInputBytes < s.utf8ByteSize

theorem marked_append {a : String} (h : markerStart <:+: a.toList) (b : String) :
    Marked (a ++ b) := by
  unfold Marked
  rw [String.toList_append]
  exact h.trans (List.prefix_append _ _).isInfix

theorem applyRule_current (pass : RulePass) (rule : RedactionRule) :
    (applyRule regex pass rule).current = rewrite regex rule pass.current := by
  unfold applyRule
  dsimp only
  split_ifs with hfound
  · rfl
  · refine (rewrite_of_not_rewrites fun ⟨f, hf, _⟩ => hfound ?_).symm
    exact List.length_pos_of_mem hf

theorem foldl_current (rules : List RedactionRule) (pass : RulePass) :
    (rules.foldl (applyRule regex) pass).current = rewriteAll regex rules pass.current := by
  induction rules generalizing pass with
  | nil => rfl
  | cons rule rules ih =>
    rw [List.foldl_cons, ih, applyRule_current]
    rfl

/-- How many matches the rules have in one text. -/
def matchesIn (rules : List RedactionRule) (text : String) : ℕ :=
  (rules.map fun rule => (regex.find rule.pattern text).found.length).sum

/-- Rules that leave the text all search the same one. -/
theorem foldl_totalMatches {rules : List RedactionRule} (pass : RulePass)
    (h : ∀ rule ∈ rules, rewrite regex rule pass.current = pass.current) :
    (rules.foldl (applyRule regex) pass).totalMatches =
      pass.totalMatches + matchesIn regex rules pass.current := by
  induction rules generalizing pass with
  | nil => rfl
  | cons rule rules ih =>
    obtain ⟨hrule, hrules⟩ := List.forall_mem_cons.mp h
    have hcurrent := (applyRule_current regex pass rule).trans hrule
    have htotal : (applyRule regex pass rule).totalMatches =
        pass.totalMatches + (regex.find rule.pattern pass.current).found.length := by
      unfold applyRule
      dsimp only
      split_ifs with hfound
      · rfl
      · omega
    rw [List.foldl_cons, ih _ (by rwa [hcurrent]), hcurrent, htotal, matchesIn, matchesIn,
      List.map_cons, List.sum_cons, Nat.add_assoc]

/-- The text is too long to be scanned, a rule of the field finds in it what is not yet its own
replacement, or the rules find more than is let pass. -/
def Covered (field : FieldName) (s : String) : Prop :=
  Oversized s ∨ (∃ rule ∈ field.rules, Rewrites regex rule s) ∨
    maxHeuristicMatches < matchesIn regex field.rules s

theorem Covered.matches {field : FieldName} {s : String} (h : Covered regex field s)
    (hsize : ¬Oversized s) : FieldMatches regex field s := by
  rcases h with hover | ⟨rule, hrule, f, hf, -⟩ | hmany
  · exact absurd hover hsize
  · exact ⟨rule, hrule, List.length_pos_of_mem hf⟩
  · by_contra hnone
    have hzero : matchesIn regex field.rules s = 0 := by
      refine List.sum_eq_zero fun n hn => ?_
      obtain ⟨rule, hrule, rfl⟩ := List.mem_map.mp hn
      by_contra hpos
      exact hnone ⟨rule, hrule, Nat.pos_of_ne_zero hpos⟩
    omega

/-- The marker of a long text is a short one. -/
theorem oversized_ne {s : String} (h : Oversized s) :
    "[REDACTED:oversized:" ++ toString s.utf8ByteSize ++ "bytes]" ≠ s := by
  intro heq
  have hsize := congrArg String.utf8ByteSize heq
  rw [String.utf8ByteSize_append, String.utf8ByteSize_append] at hsize
  have hmarker : "[REDACTED:oversized:".utf8ByteSize = 20 ∧ "bytes]".utf8ByteSize = 6 := by decide
  have hlarge : 64 * 1024 < s.utf8ByteSize := h
  have hdigits : s.utf8ByteSize < 10 ^ (s.utf8ByteSize / 2) := by
    obtain ⟨m, hm⟩ : ∃ m, s.utf8ByteSize / 2 = m + 1 := ⟨s.utf8ByteSize / 2 - 1, by omega⟩
    have hpow : m < 10 ^ m := Nat.lt_pow_self (by decide)
    rw [hm, pow_succ]
    omega
  have hrepr := utf8ByteSize_repr_le (by omega) hdigits
  rw [hmarker.1, hmarker.2] at hsize
  change 20 + s.utf8ByteSize.repr.utf8ByteSize + 6 = s.utf8ByteSize at hsize
  omega

/-- A text that is not covered is passed on. -/
theorem redactedString_same {field : FieldName} {s : String} (h : ¬Covered regex field s) :
    redactedString regex field s = s := by
  obtain ⟨hsize, hrewrites, hmany⟩ : ¬Oversized s ∧ (¬∃ rule ∈ field.rules, Rewrites regex rule s) ∧
      ¬maxHeuristicMatches < matchesIn regex field.rules s := by
    simpa [Covered, not_or] using h
  have hleft : ∀ rule ∈ field.rules, rewrite regex rule s = s := fun rule hrule =>
    rewrite_of_not_rewrites fun hrule' => hrewrites ⟨rule, hrule, hrule'⟩
  have hcurrent : (field.rules.foldl (applyRule regex) ⟨s, 0, none⟩).current = s := by
    rw [foldl_current]
    exact rewriteAll_of_left hleft
  have htotal := foldl_totalMatches regex ⟨s, 0, none⟩ hleft
  rw [Nat.zero_add] at htotal
  have hrules : field.rules.isEmpty = false := by cases field <;> rfl
  unfold redactedString redactText
  by_cases hs : s.isEmpty
  · rw [if_pos hs]
  have hscanned : ¬maxRedactionInputBytes < s.utf8ByteSize := hsize
  rw [if_neg hs, if_neg hs, if_neg hscanned, hrules, if_neg (by decide)]
  dsimp only
  rw [htotal, if_neg hmany]
  split_ifs
  · rfl
  · exact hcurrent

/-- A text that is covered gives way to a marked one. -/
theorem redactedString_marked (hregex : regex.Documented) {field : FieldName} {s : String}
    (hs : s.isEmpty = false) (h : Covered regex field s) :
    Marked (redactedString regex field s) ∧ redactedString regex field s ≠ s := by
  have hrules : field.rules.isEmpty = false := by cases field <;> rfl
  unfold redactedString redactText
  rw [hs, hrules, if_neg (by decide), if_neg (by decide)]
  by_cases hsize : maxRedactionInputBytes < s.utf8ByteSize
  · rw [if_pos hsize]
    exact ⟨marked_append (marked_append (by decide) _) _, oversized_ne hsize⟩
  rw [if_neg hsize, if_neg (by decide)]
  have hpass := foldl_passed regex (replacement_marked field) s
  have hmatches := h.matches regex hsize
  have hfound := hpass.matched.mpr hmatches
  dsimp only
  rw [if_neg hfound]
  split_ifs with hmany
  · refine ⟨marked_append (marked_append (by decide) _) _, fun heq => ?_⟩
    obtain ⟨rule, hrule, hpos⟩ := hmatches
    have hsilent := ((settles_rules hregex field).effective rule hrule).silent
    rw [← heq] at hpos
    change 0 < (regex.find rule.pattern tooManyMarker).found.length at hpos
    rw [hsilent] at hpos
    cases hpos
  · refine ⟨hpass.marked hfound, fun heq => ?_⟩
    rw [foldl_current] at heq
    have hleft := (settles_rules hregex field).still s heq
    rcases h with hover | ⟨rule, hrule, hrewrites⟩ | hcount
    · exact hsize hover
    · have heffective := (settles_rules hregex field).effective rule hrule
      exact heffective.changes s hrewrites (hleft rule hrule)
    · have htotal := foldl_totalMatches regex ⟨s, 0, none⟩ hleft
      rw [htotal, Nat.zero_add] at hmany
      exact hmany hcount

end

/-! ### Places in a value -/

inductive JsonStep where
  | item (i : ℕ)
  | field (key : String)
  deriving DecidableEq, Repr

/-- What stands at a place, if the value has it. -/
def valueAt : List JsonStep → ToolProgram.Json → Option ToolProgram.Json
  | [], v => some v
  | .item i :: path, .array items => (items[i]?).bind (valueAt path)
  | .field key :: path, .object fields => (fields.lookup key).bind (valueAt path)
  | _ :: _, _ => none

/-- The place is below a key that names a secret. -/
def belowSecret (path : List JsonStep) : Bool :=
  path.any fun step =>
    match step with
    | .field key => isSecretKey (lowerKey key)
    | .item _ => false

/-- The field whose rules a place is scanned with. -/
def fieldAt : FieldName → List JsonStep → FieldName
  | field, [] => field
  | field, .item _ :: path => fieldAt (itemField field) path
  | _, .field key :: path => fieldAt (classifyObjectKey key) path

section

variable (regex : RegexCrate)

theorem getElem?_redactItems (items : List ToolProgram.Json) (field : FieldName)
    (summary : RedactionSummary) {i : ℕ} {v : ToolProgram.Json} (h : items[i]? = some v) :
    ∃ summary', (redactItems regex items field summary).1[i]? =
      some (redactJsonInner regex v field summary').1 := by
  induction items generalizing i summary with
  | nil => simp at h
  | cons item items ih =>
    cases i with
    | zero =>
      cases h
      exact ⟨summary, rfl⟩
    | succ i => exact ih _ h

theorem lookup_redactFields (fields : List (String × ToolProgram.Json)) (summary : RedactionSummary)
    {key : String} {v : ToolProgram.Json} (h : fields.lookup key = some v) :
    ∃ summary', (redactFields regex fields summary).1.lookup key =
      some (redactJsonInner regex v (classifyObjectKey key) summary').1 := by
  induction fields generalizing summary with
  | nil => cases h
  | cons field fields ih =>
    obtain ⟨other, child⟩ := field
    rw [redactFields]
    by_cases hkey : key = other
    · subst hkey
      rw [List.lookup_cons_self] at h
      cases h
      exact ⟨summary, List.lookup_cons_self⟩
    · have hne : (key == other) = false := beq_eq_false_iff_ne.mpr hkey
      rw [List.lookup_cons, hne] at h
      obtain ⟨summary', hrest⟩ :=
        ih (redactJsonInner regex child (classifyObjectKey other) summary).2 h
      exact ⟨summary', by rw [List.lookup_cons, hne]; exact hrest⟩

/-- What stands at a place of the output is the redaction of what stands there in the input,
by the rules of the place. -/
theorem valueAt_redactJsonInner (path : List JsonStep) {v w : ToolProgram.Json} (field : FieldName)
    (summary : RedactionSummary) (h : valueAt path v = some w) :
    ∃ summary', valueAt path (redactJsonInner regex v field summary).1 =
      some (redactJsonInner regex w (fieldAt field path) summary').1 := by
  induction path generalizing v field summary with
  | nil =>
    cases h
    exact ⟨summary, rfl⟩
  | cons step path ih =>
    cases step with
    | item i =>
      cases v with
      | array items =>
        obtain ⟨child, hchild, hat⟩ := Option.bind_eq_some_iff.mp h
        obtain ⟨summary₁, hitem⟩ := getElem?_redactItems regex items (itemField field)
          summary hchild
        obtain ⟨summary', hrest⟩ := ih (itemField field) summary₁ hat
        refine ⟨summary', ?_⟩
        exact (congrArg (·.bind (valueAt path)) hitem).trans hrest
      | _ => cases h
    | field key =>
      cases v with
      | object fields =>
        obtain ⟨child, hchild, hat⟩ := Option.bind_eq_some_iff.mp h
        obtain ⟨summary₁, hfield⟩ := lookup_redactFields regex fields summary hchild
        obtain ⟨summary', hrest⟩ := ih (classifyObjectKey key) summary₁ hat
        refine ⟨summary', ?_⟩
        exact (congrArg (·.bind (valueAt path)) hfield).trans hrest
      | _ => cases h

/-- Every string below a secret key gives way to a text with a marker. -/
def SecretsRedacted (value redacted : ToolProgram.Json) : Prop :=
  ∀ path s, belowSecret path = true → valueAt path value = some (.string s) → s.isEmpty = false →
    ∃ t, valueAt path redacted = some (.string t) ∧ Marked t ∧ t ≠ s

/-- The rules of its place cover every string below a secret key. -/
def SecretsCovered (value : ToolProgram.Json) (field : FieldName) : Prop :=
  ∀ path s, belowSecret path = true → valueAt path value = some (.string s) → s.isEmpty = false →
    Covered regex (fieldAt field path) s

theorem valueAt_redactJson {value : ToolProgram.Json} (field : FieldName)
    {path : List JsonStep} {s : String} (h : valueAt path value = some (.string s)) :
    valueAt path (redactJson regex value field).1 =
      some (.string (redactedString regex (fieldAt field path) s)) := by
  obtain ⟨summary, hat⟩ := valueAt_redactJsonInner regex path field {} h
  rw [redactJson, hat, redactJsonInner]

/-- Secrets are redacted exactly if the rules of their places cover them. -/
theorem redactJson_secrets (hregex : regex.Documented) (value : ToolProgram.Json)
    (field : FieldName) :
    SecretsRedacted value (redactJson regex value field).1 ↔ SecretsCovered regex value field := by
  refine forall_congr' fun path => forall_congr' fun s => forall_congr' fun _ =>
    forall_congr' fun hat =>
    forall_congr' fun hs => ?_
  rw [valueAt_redactJson regex field hat]
  constructor
  · rintro ⟨t, ht, -, hne⟩
    obtain rfl : redactedString regex (fieldAt field path) s = t := by simpa using ht
    by_contra hnot
    exact hne (redactedString_same regex hnot)
  · intro hcovered
    exact ⟨_, rfl, redactedString_marked regex hregex hs hcovered⟩

end

/-! ### Passwords -/

/-- Finds what is one blob, and nothing else. -/
def blobCrate : RegexCrate where
  find pattern text :=
    if pattern = blobPattern ∧ text.toList.all isBlobChar ∧
        16 ≤ text.toList.length then ⟨[⟨"", text, []⟩], ""⟩
    else ⟨[], text⟩
  text_find pattern text := by
    split <;> simp [Matches.text]

theorem blobCrate_documented : blobCrate.Documented := by
  have hother : ∀ pattern form, pattern ≠ blobPattern → blobCrate.Finds pattern form := by
    intro pattern form hne text earlier f later hfound
    simp [blobCrate, hne] at hfound
  constructor
  case blob =>
    intro text earlier f later hfound
    by_cases hblob : text.toList.all isBlobChar ∧ 16 ≤ text.toList.length
    · have hone : (blobCrate.find blobPattern text).found = [⟨"", text, []⟩] := by
        dsimp only [blobCrate]
        rw [if_pos ⟨rfl, hblob⟩]
      rw [hfound] at hone
      obtain ⟨rfl, rfl⟩ : earlier = [] ∧ f = ⟨"", text, []⟩ := by
        rcases List.append_eq_singleton_iff.mp hone with ⟨rfl, h⟩ | ⟨-, h⟩
        · exact ⟨rfl, (List.cons.inj h).1⟩
        · cases h
      exact ⟨rfl, List.ne_nil_of_length_pos (by omega), List.all_eq_true.mp hblob.1⟩
    · have hnone : (blobCrate.find blobPattern text).found = [] := by
        dsimp only [blobCrate]
        rw [if_neg fun h => hblob h.2]
      rw [hfound] at hnone
      simp at hnone
  all_goals exact hother _ _ (by decide)

def passwordOf (s : String) : ToolProgram.Json := .object [("password", .string s)]

theorem valueAt_passwordOf {path : List JsonStep} {s t : String}
    (h : valueAt path (passwordOf s) = some (.string t)) : path = [.field "password"] ∧ t = s := by
  match path with
  | [] => cases h
  | .item _ :: _ => cases h
  | .field key :: path =>
    obtain ⟨child, hchild, hat⟩ := Option.bind_eq_some_iff.mp h
    obtain ⟨rfl, rfl⟩ : key = "password" ∧ .string s = child := by
      by_cases hkey : key = "password"
      · subst hkey
        exact ⟨rfl, Option.some.inj hchild⟩
      · simp [beq_eq_false_iff_ne.mpr hkey, List.lookup_cons] at hchild
    match path with
    | [] =>
      cases hat
      exact ⟨rfl, rfl⟩
    | .item _ :: _ => cases hat
    | .field _ :: _ => cases hat

theorem redactJson_secrets_blob :
    SecretsRedacted (passwordOf "correct-horse-battery")
      (redactJson blobCrate (passwordOf "correct-horse-battery") .text).1 := by
  refine (redactJson_secrets blobCrate blobCrate_documented _ _).mpr fun path s _ hat _ => ?_
  obtain ⟨rfl, rfl⟩ := valueAt_passwordOf hat
  exact .inr (.inl ⟨⟨"auth-blob", blobPattern, "[REDACTED:auth-blob]"⟩, by decide,
    ⟨"", "correct-horse-battery", []⟩, by decide, by decide⟩)

theorem shortPassword_survives :
    ¬SecretsRedacted (passwordOf "hunter2")
      (redactJson blobCrate (passwordOf "hunter2") .text).1 := by
  intro h
  obtain ⟨t, ht, -, hne⟩ := h [.field "password"] "hunter2" (by decide) rfl rfl
  have hat : valueAt [.field "password"] (redactJson blobCrate (passwordOf "hunter2") .text).1 =
      some (.string (redactedString blobCrate .authorization "hunter2")) :=
    valueAt_redactJson blobCrate .text rfl
  rw [hat, Option.some.injEq, ToolProgram.Json.string.injEq] at ht
  exact hne ht.symm

end Codegg.Projection
