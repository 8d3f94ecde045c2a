import Codegg.Library.Rewriting
import Codegg.Library.TextLines

/-!
# Redaction rules

A rule puts a replacement in the place of each match of a pattern. The regular expressions are
compiled and searched by a library; what it finds in a text is a parameter, and all the
patterns here do compile. What the library documents of the matches of each pattern tells when
a rule, or the rules of a field one after the other, give a text back as it was.
-/
namespace Codegg.Projection

open Codegg.Library

/-! ### The regular expressions -/

/-- A match, with the text between it and the match before, and its capture groups. -/
structure Found where
  before : String
  matched : String
  groups : List (Option String)
  deriving DecidableEq, Repr

/-- The successive matches in a text, and what comes after the last one. -/
structure Matches where
  found : List Found
  rest : String
  deriving DecidableEq, Repr

/-- A text is its matches and what stands between them. -/
def Matches.text (m : Matches) : List Char :=
  m.found.flatMap (fun f => f.before.toList ++ f.matched.toList) ++ m.rest.toList

/-- What a pattern finds in a text. -/
structure RegexCrate where
  find : String → String → Matches
  text_find : ∀ pattern text, (find pattern text).text = text.toList

/-! ### Rules -/

structure RedactionRule where
  name : String
  pattern : String
  replacement : String
  deriving DecidableEq, Repr

inductive FieldName where
  | toolArgument
  | toolOutput
  | environment
  | prompt
  | answer
  | locator
  | text
  | authorization
  | connectionPayload
  deriving DecidableEq, Repr

def pemPattern : String :=
  "-----BEGIN [A-Z ]*PRIVATE KEY-----[\\s\\S]+?-----END [A-Z ]*PRIVATE KEY-----"

/-- One of some names, a separator and a value of six characters or more. -/
def assignmentPattern (names : List String) : String :=
  "(?i)\\b(" ++ String.intercalate "|" names ++
    ")\\s*[\"']?\\s*[=:]\\s*[\"']?([^\"'\\s,;\x7d\x7b]\x7b6,\x7d)"

def callNames : List String :=
  ["api[_-]?key", "access[_-]?token", "secret[_-]?key", "auth[_-]?token", "password", "passwd",
    "pwd", "token", "client[_-]?secret", "private[_-]?key"]

def textNames : List String :=
  ["api[_-]?key", "access[_-]?token", "secret[_-]?key", "auth[_-]?token", "password", "passwd",
    "pwd", "client[_-]?secret", "private[_-]?key"]

def headerBearerPattern : String :=
  "(?i)(Authorization\\s*[:=]\\s*[\"']?Bearer\\s+)([A-Za-z0-9._\\-]+)"

def longBearerPattern : String := "(?i)\\bBearer\\s+([A-Za-z0-9._\\-]\x7b16,\x7d)"

def bearerPattern : String := "(?i)\\bBearer\\s+([A-Za-z0-9._\\-]+)"

def basicPattern : String := "(?i)\\bBasic\\s+([A-Za-z0-9+/=._\\-]+)"

def blobPattern : String := "^[A-Za-z0-9+/=._\\-]\x7b16,\x7d$"

def userinfoPattern : String := "[a-zA-Z][a-zA-Z0-9+.\\-]*://[^\\s:/@]+:[^\\s@]+@"

def schemeUserinfoPattern : String := "([a-zA-Z][a-zA-Z0-9+.\\-]*://)([^\\s:/@]+):([^\\s@]+)@"

def queryPattern : String :=
  "(?i)([?&](?:api[_-]?key|access[_-]?token|token|secret|password|sig)=)([^&\\s]+)"

def envPattern : String :=
  "(?im)^([A-Z_]*(?:SECRET|TOKEN|API[_-]?KEY|PASSWORD|PRIVATE[_-]?KEY|AUTH|" ++
    "CREDENTIAL)[A-Z0-9_]*)\\s*=\\s*(\"[^\"]*\"|'[^']*'|[^\\s,;\x7d\x7b]+)"

def connTokenPattern : String :=
  "(?i)\\b(token|access[_-]?token|api[_-]?key|client[_-]?secret)\\s*[=:]" ++
    "\\s*[\"']?([^\"'\\s,;\x7d\x7b]\x7b6,\x7d)"

def rulesArguments : List RedactionRule :=
  [⟨"arg-bearer", headerBearerPattern, "$1[REDACTED:bearer]"⟩,
    ⟨"arg-api-key", assignmentPattern callNames, "$1=[REDACTED]"⟩,
    ⟨"arg-pem", pemPattern, "[REDACTED:pem-block]"⟩,
    ⟨"arg-url-userinfo", userinfoPattern, "[REDACTED:userinfo]@"⟩]

def rulesOutput : List RedactionRule :=
  [⟨"out-bearer", headerBearerPattern, "$1[REDACTED:bearer]"⟩,
    ⟨"out-bearer-bare", longBearerPattern, "Bearer [REDACTED:bearer]"⟩,
    ⟨"out-pem", pemPattern, "[REDACTED:pem-block]"⟩,
    ⟨"out-secret-assignment", assignmentPattern callNames, "$1=[REDACTED]"⟩,
    ⟨"out-url-userinfo", userinfoPattern, "[REDACTED:userinfo]@"⟩]

def rulesEnvironment : List RedactionRule := [⟨"env-secret", envPattern, "$1=[REDACTED]"⟩]

def rulesText : List RedactionRule :=
  [⟨"text-bearer", longBearerPattern, "Bearer [REDACTED:bearer]"⟩,
    ⟨"text-pem", pemPattern, "[REDACTED:pem-block]"⟩,
    ⟨"text-secret-assignment", assignmentPattern textNames, "$1=[REDACTED]"⟩,
    ⟨"text-url-userinfo", schemeUserinfoPattern, "$1[REDACTED:userinfo]@"⟩]

def rulesAnswer : List RedactionRule :=
  [⟨"answer-bearer", longBearerPattern, "Bearer [REDACTED:bearer]"⟩,
    ⟨"answer-secret-assignment", assignmentPattern textNames, "$1=[REDACTED]"⟩,
    ⟨"answer-pem", pemPattern, "[REDACTED:pem-block]"⟩]

def rulesLocator : List RedactionRule :=
  [⟨"locator-userinfo", schemeUserinfoPattern, "$1[REDACTED:userinfo]@"⟩,
    ⟨"locator-secret-query", queryPattern, "$1[REDACTED]"⟩]

def rulesAuthorization : List RedactionRule :=
  [⟨"auth-bearer", bearerPattern, "Bearer [REDACTED:bearer]"⟩,
    ⟨"auth-basic", basicPattern, "Basic [REDACTED:basic]"⟩,
    ⟨"auth-blob", blobPattern, "[REDACTED:auth-blob]"⟩]

def rulesConnection : List RedactionRule :=
  [⟨"conn-pem", pemPattern, "[REDACTED:pem-block]"⟩,
    ⟨"conn-token", connTokenPattern, "$1=[REDACTED]"⟩]

def FieldName.rules : FieldName → List RedactionRule
  | toolArgument => rulesArguments
  | toolOutput => rulesOutput
  | environment => rulesEnvironment
  | prompt => rulesText
  | answer => rulesAnswer
  | locator => rulesLocator
  | text => rulesText
  | authorization => rulesAuthorization
  | connectionPayload => rulesConnection

/-! ### Replacing -/

/-- `str::replace` of `$1`. -/
def replaceGroup (first : List Char) : List Char → List Char
  | '$' :: '1' :: cs => first ++ replaceGroup first cs
  | c :: cs => c :: replaceGroup first cs
  | [] => []

/-- Without a capture group, and without `$1` in it, the replacement stands as it is. -/
def renderReplacement (rule : RedactionRule) (groups : List (Option String)) : List Char :=
  match groups with
  | [] => rule.replacement.toList
  | first :: _ => replaceGroup (first.getD "").toList rule.replacement.toList

def replaceAll (rule : RedactionRule) (m : Matches) : String :=
  String.ofList (m.found.flatMap (fun f => f.before.toList ++ renderReplacement rule f.groups) ++
    m.rest.toList)

/-! ### Markers -/

/-- What every marker begins with. -/
def markerStart : List Char := "[REDACTED".toList

def Marked (text : String) : Prop := markerStart <:+: text.toList

theorem replacement_marked (field : FieldName) :
    ∀ rule ∈ field.rules, markerStart <:+: rule.replacement.toList := by
  cases field <;> decide

theorem replaceGroup_append (first : List Char) {m : List Char} (hm : '$' ∉ m)
    (cs : List Char) : replaceGroup first (m ++ cs) = m ++ replaceGroup first cs := by
  induction m with
  | nil => rfl
  | cons c m ih =>
    have hc : c ≠ '$' := by
      rintro rfl
      exact hm List.mem_cons_self
    rw [List.cons_append, replaceGroup, ih fun h => hm (List.mem_cons_of_mem c h)]
    · rfl
    · intro _ h
      exact absurd h hc

/-- A text without `$` that does not start with `1` is still there when `$1` is replaced. -/
theorem replaceGroup_infix (first : List Char) {c₀ : Char} {m cs : List Char} (hc₀ : c₀ ≠ '1')
    (hm : '$' ∉ c₀ :: m) (h : c₀ :: m <:+: cs) : c₀ :: m <:+: replaceGroup first cs := by
  have hdollar : c₀ ≠ '$' := by
    rintro rfl
    exact hm List.mem_cons_self
  induction cs using replaceGroup.induct with
  | case1 cs ih =>
    have hrest : c₀ :: m <:+: cs := by
      rcases List.infix_cons_iff.mp h with hstart | hrest
      · exact absurd (List.cons_prefix_cons.mp hstart).1 hdollar
      rcases List.infix_cons_iff.mp hrest with hstart | hrest
      · exact absurd (List.cons_prefix_cons.mp hstart).1 hc₀
      · exact hrest
    exact (ih hrest).trans (List.suffix_append _ _).isInfix
  | case2 c cs hgroup ih =>
    rcases List.infix_cons_iff.mp h with ⟨rest, hrest⟩ | hrest
    · rw [← hrest, replaceGroup_append first hm]
      exact (List.prefix_append _ _).isInfix
    · rw [replaceGroup]
      · exact (ih hrest).trans (List.suffix_cons _ _).isInfix
      · exact hgroup
  | case3 => simp at h

theorem replaceGroup_marked (first : List Char) {cs : List Char} (h : markerStart <:+: cs) :
    markerStart <:+: replaceGroup first cs :=
  replaceGroup_infix first (by decide) (by decide) h

theorem renderReplacement_marked {rule : RedactionRule}
    (h : markerStart <:+: rule.replacement.toList) (groups : List (Option String)) :
    markerStart <:+: renderReplacement rule groups := by
  cases groups with
  | nil => exact h
  | cons first _ => exact replaceGroup_marked _ h

theorem replaceAll_marked {rule : RedactionRule} (h : markerStart <:+: rule.replacement.toList)
    {m : Matches} (hm : 0 < m.found.length) : Marked (replaceAll rule m) := by
  obtain ⟨found, hfound⟩ := List.exists_mem_of_length_pos hm
  obtain ⟨earlier, later, hsplit⟩ := List.append_of_mem hfound
  have hrendered := renderReplacement_marked h found.groups
  unfold Marked replaceAll
  rw [hsplit]
  refine hrendered.trans ⟨earlier.flatMap (fun f => f.before.toList ++
    renderReplacement rule f.groups) ++ found.before.toList, later.flatMap (fun f =>
    f.before.toList ++ renderReplacement rule f.groups) ++ m.rest.toList, ?_⟩
  simp

/-! ### What the patterns match -/

/-- A lowercase letter and what `(?i)` takes for it: Unicode folds the long s and the Kelvin
sign. -/
def caseForms (c : Char) : List Char :=
  c :: c.toUpper :: (if c = 's' then ['\u017f'] else if c = 'k' then ['\u212a'] else [])

def Spells (word : String) (text : List Char) : Prop :=
  List.Forall₂ (fun c d => c ∈ caseForms d) text word.toList

def isBlobChar (c : Char) : Bool := c.isAlphanum || "+/=._-".toList.contains c

/-- The characters of a token; under `(?i)` the letters bring their other forms along. -/
def isTokenChar (c : Char) : Bool := isBlobChar c || c == '\u017f' || c == '\u212a'

def isQuote (c : Char) : Bool := c == '"' || c == '\''

/-- `[^"'\s,;}{]` -/
def isValueChar (c : Char) : Bool :=
  !isWhitespace c && !isQuote c && !",;\x7d\x7b".toList.contains c

/-- `[^\s,;}{]` -/
def isEnvValueChar (c : Char) : Bool := !isWhitespace c && !",;\x7d\x7b".toList.contains c

/-- `[^&\s]` -/
def isQueryValueChar (c : Char) : Bool := !isWhitespace c && c != '&'

/-- Some characters of a class. -/
def Run (p : Char → Bool) (text : List Char) : Prop := text ≠ [] ∧ ∀ c ∈ text, p c = true

/-- A repetition takes all it can, when nothing follows it in the pattern. -/
def Greedy (p : Char → Bool) (value after : List Char) : Prop :=
  Run p value ∧ ∀ c, after.head? = some c → p c = false

/-- A separator with blanks and quotes around it. -/
def IsGap (separators gap : List Char) : Prop :=
  ∃ front c back, gap = front ++ c :: back ∧ c ∈ separators ∧
    ∀ d ∈ front ++ back, (isWhitespace d || isQuote d) = true

/-- What is known of a match: the text it is in, the matched characters, the capture groups
and what comes after it. -/
abbrev Form := List Char → List Char → List (Option String) → List Char → Prop

def FirstGroup (groups : List (Option String)) (text : List Char) : Prop :=
  groups.head? = some (some (String.ofList text))

def headerForm : Form := fun _ matched groups _ =>
  ∃ front blank token, matched = front ++ blank ++ token ∧ front ≠ [] ∧ Run isWhitespace blank ∧
    Run isTokenChar token ∧ FirstGroup groups (front ++ blank)

def wordForm (word : String) : Form := fun _ matched _ _ =>
  ∃ front blank token, matched = front ++ blank ++ token ∧ Spells word front ∧
    Run isWhitespace blank ∧ Run isTokenChar token

def pemForm : Form := fun _ matched _ _ => "-----BEGIN ".toList <+: matched

def userinfoForm : Form := fun _ matched _ _ => "://".toList <:+: matched

def schemeUserinfoForm : Form := fun _ matched groups _ =>
  ∃ scheme userinfo, matched = scheme ++ "://".toList ++ (userinfo ++ ['@']) ∧
    '@' ∉ userinfo ∧ FirstGroup groups (scheme ++ "://".toList)

/-- What the last word of a name may be. -/
def nameEndings : List String := ["key", "token", "secret", "password", "passwd", "pwd"]

def EndsName (name : List Char) : Prop :=
  ∃ word ∈ nameEndings, ∃ front ending, name = front ++ ending ∧ Spells word ending

def assignmentForm : Form := fun _ matched groups after =>
  ∃ name gap value, matched = name ++ (gap ++ value) ∧ EndsName name ∧ IsGap ['=', ':'] gap ∧
    Greedy isValueChar value after ∧ FirstGroup groups name

def envForm : Form := fun _ matched groups after =>
  ∃ name gap value, matched = name ++ (gap ++ value) ∧ Run (!isWhitespace ·) name ∧
    IsGap ['='] gap ∧
    ((∃ c rest, value = c :: rest ∧ isQuote c = true) ∨ Greedy isEnvValueChar value after) ∧
    FirstGroup groups name

def queryForm : Form := fun _ matched groups after =>
  ∃ key value, matched = key ++ ['='] ++ value ∧ Greedy isQueryValueChar value after ∧
    FirstGroup groups (key ++ ['='])

def blobForm : Form := fun text matched _ _ => matched = text ∧ Run isBlobChar text

def RegexCrate.Finds (regex : RegexCrate) (pattern : String) (form : Form) : Prop :=
  ∀ text earlier f later, (regex.find pattern text).found = earlier ++ f :: later →
    form text.toList f.matched.toList f.groups
      (Matches.text ⟨later, (regex.find pattern text).rest⟩)

/-- The crate matches the patterns as it documents: what a match looks like, what its first
group holds, and that the last repetition of a pattern goes as far as it can. -/
structure RegexCrate.Documented (regex : RegexCrate) : Prop where
  headerBearer : regex.Finds headerBearerPattern headerForm
  longBearer : regex.Finds longBearerPattern (wordForm "bearer")
  bearer : regex.Finds bearerPattern (wordForm "bearer")
  basic : regex.Finds basicPattern (wordForm "basic")
  pem : regex.Finds pemPattern pemForm
  userinfo : regex.Finds userinfoPattern userinfoForm
  schemeUserinfo : regex.Finds schemeUserinfoPattern schemeUserinfoForm
  callAssignment : regex.Finds (assignmentPattern callNames) assignmentForm
  textAssignment : regex.Finds (assignmentPattern textNames) assignmentForm
  connToken : regex.Finds connTokenPattern assignmentForm
  env : regex.Finds envPattern envForm
  query : regex.Finds queryPattern queryForm
  blob : regex.Finds blobPattern blobForm

/-! ### One rule -/

section

variable (regex : RegexCrate)

def pieces (rule : RedactionRule) (found : List Found) : List (Piece Char) :=
  found.map fun f => ⟨f.before.toList, f.matched.toList, renderReplacement rule f.groups⟩

theorem original_pieces (rule : RedactionRule) (found : List Found) (rest : String) :
    original (pieces rule found) rest.toList = Matches.text ⟨found, rest⟩ := by
  induction found with
  | nil => rfl
  | cons f found ih =>
    rw [pieces, List.map_cons, original, ← pieces, ih]
    simp [Matches.text]

theorem rewritten_pieces (rule : RedactionRule) (found : List Found) (rest : String) :
    rewritten (pieces rule found) rest.toList = (replaceAll rule ⟨found, rest⟩).toList := by
  rw [replaceAll, String.toList_ofList]
  induction found with
  | nil => rfl
  | cons f found ih =>
    rw [pieces, List.map_cons, rewritten, ← pieces, ih]
    simp

/-- What one rule makes of a text. -/
def rewrite (rule : RedactionRule) (text : String) : String :=
  replaceAll rule (regex.find rule.pattern text)

/-- The rule finds something that is not its own replacement. -/
def Rewrites (rule : RedactionRule) (text : String) : Prop :=
  ∃ f ∈ (regex.find rule.pattern text).found, renderReplacement rule f.groups ≠ f.matched.toList

/-- What is the case for each match of a rule in a text. -/
def EachMatch (rule : RedactionRule) (text : String)
    (holds : List Char → List Char → List Char → Prop) :
    Prop :=
  EachPiece holds (pieces rule (regex.find rule.pattern text).found)
    (regex.find rule.pattern text).rest.toList

variable {regex} {rule : RedactionRule} {text : String}
  {holds : List Char → List Char → List Char → Prop}

theorem original_find (rule : RedactionRule) (text : String) :
    original (pieces rule (regex.find rule.pattern text).found)
      (regex.find rule.pattern text).rest.toList = text.toList := by
  rw [original_pieces]
  exact regex.text_find rule.pattern text

theorem rewritten_find (rule : RedactionRule) (text : String) :
    rewritten (pieces rule (regex.find rule.pattern text).found)
      (regex.find rule.pattern text).rest.toList = (rewrite regex rule text).toList :=
  rewritten_pieces rule _ _

theorem RegexCrate.Finds.each {pattern : String} {form : Form} (h : regex.Finds pattern form)
    (name replacement text : String) :
    EachMatch regex ⟨name, pattern, replacement⟩ text fun old new after =>
      ∃ groups, form text.toList old groups after ∧
        new = renderReplacement ⟨name, pattern, replacement⟩ groups := by
  suffices hall : ∀ earlier later, (regex.find pattern text).found = earlier ++ later →
      EachPiece (fun old new after => ∃ groups, form text.toList old groups after ∧
        new = renderReplacement ⟨name, pattern, replacement⟩ groups)
        (pieces ⟨name, pattern, replacement⟩ later) (regex.find pattern text).rest.toList from
    hall [] _ rfl
  intro earlier later hfound
  induction later generalizing earlier with
  | nil => trivial
  | cons f later ih =>
    refine ⟨⟨f.groups, ?_, rfl⟩, ih (earlier ++ [f]) (by rw [hfound]; simp)⟩
    have hform := h text earlier f later hfound
    rwa [← original_pieces ⟨name, pattern, replacement⟩] at hform

/-- A rule all of whose matches are their own replacements leaves the text. -/
theorem rewrite_of_not_rewrites (h : ¬Rewrites regex rule text) :
    rewrite regex rule text = text := by
  have hsame : ∀ f ∈ (regex.find rule.pattern text).found,
      renderReplacement rule f.groups = f.matched.toList := by
    intro f hf
    by_contra hne
    exact h ⟨f, hf, hne⟩
  apply String.toList_injective
  rw [← regex.text_find rule.pattern text, rewrite, replaceAll, String.toList_ofList, Matches.text]
  congr 1
  exact List.flatMap_congr fun f hf => by rw [hsame f hf]

/-! ### Neighbours that no replacement brings along -/

/-- A blank before a token, or two dashes or slashes. -/
def Touching (a b : Char) : Prop :=
  isWhitespace a = true ∧ isTokenChar b = true ∨ a = '-' ∧ b = '-' ∨ a = '/' ∧ b = '/'

instance : DecidableRel Touching := fun _ _ => inferInstanceAs (Decidable (_ ∨ _ ∨ _))

theorem not_touching_bracket (a : Char) : ¬Touching a '[' := by
  have hbracket : isTokenChar '[' = false := by decide
  simp [Touching, hbracket]

/-- What the markers end in. -/
theorem not_touching_end {a : Char} (ha : a = ']' ∨ a = '@') (b : Char) : ¬Touching a b := by
  have hblank : isWhitespace ']' = false ∧ isWhitespace '@' = false := by decide
  rcases ha with rfl | rfl <;> simp [Touching, hblank]

/-- What markers are like. -/
structure Closed (new : List Char) : Prop where
  pairs_eq : pairs Touching new = 0
  last : ∃ c ∈ new.getLast?, c = ']' ∨ c = '@'

theorem Closed.not_touching {new : List Char} (h : Closed new) (a b : Char)
    (ha : new.getLast? = some a) : ¬Touching a b := by
  obtain ⟨c, hc, hend⟩ := h.last
  obtain rfl : c = a := Option.some.inj (hc.symm.trans ha)
  exact not_touching_end hend b

theorem Closed.ne_nil {new : List Char} (h : Closed new) : new ≠ [] := by
  rintro rfl
  obtain ⟨c, hc, -⟩ := h.last
  cases hc

/-- A marker in the place of a match. -/
theorem wears_closed {old new : List Char} (h : Closed new)
    (hfirst : ∀ a b, new.head? = some b → Touching a b →
      ∃ b', old.head? = some b' ∧ Touching a b') : Wears Touching old new :=
  ⟨h.ne_nil, hfirst, fun a b ha => h.not_touching a b ha, h.pairs_eq ▸ Nat.zero_le _⟩

/-- A marker after the part that is kept. -/
theorem wears_kept {front marker : List Char} (tail : List Char) (hfront : front ≠ [])
    (h : Closed marker)
    (hjoint : joint Touching front marker = 0) :
    Wears Touching (front ++ tail) (front ++ marker) ∧
      pairs Touching (front ++ marker) = pairs Touching front := by
  have hpairs : pairs Touching (front ++ marker) = pairs Touching front := by
    rw [pairs_append, hjoint, h.pairs_eq]
    rfl
  refine ⟨⟨by simp [hfront], ?_, fun a b ha => h.not_touching a b ?_, ?_⟩, hpairs⟩
  · intro a b hb hab
    obtain ⟨c, front, rfl⟩ := List.exists_cons_of_ne_nil hfront
    exact ⟨b, hb, hab⟩
  · rwa [List.getLast?_append_of_ne_nil front h.ne_nil] at ha
  · rw [hpairs, pairs_append]
    omega

theorem joint_bracket (front marker : List Char) : joint Touching front ('[' :: marker) = 0 := by
  unfold joint
  split
  · rename_i a b _ hb
    obtain rfl : '[' = b := Option.some.inj hb
    exact if_neg (not_touching_bracket a)
  · rfl

theorem touching_blank_token {front blank token : List Char} (hblank : Run isWhitespace blank)
    (htoken : Run isTokenChar token) :
    pairs Touching (front ++ blank) < pairs Touching (front ++ blank ++ token) := by
  have hjoint : joint Touching (front ++ blank) token = 1 := by
    unfold joint
    rw [List.getLast?_append_of_ne_nil front hblank.1]
    cases hlast : blank.getLast? with
    | none => exact absurd (List.getLast?_eq_none_iff.mp hlast) hblank.1
    | some a =>
      cases token with
      | nil => exact absurd rfl htoken.1
      | cons b token =>
        exact if_pos (.inl ⟨hblank.2 a (List.mem_of_getLast? hlast),
          htoken.2 b List.mem_cons_self⟩)
  rw [pairs_append _ (front ++ blank) token, hjoint]
  omega

/-! ### Rules whose matches always change -/

/-- Each match brings along neighbours that its replacement has not. -/
def Strict (regex : RegexCrate) (rule : RedactionRule) : Prop :=
  ∀ text, EachMatch regex rule text fun old new _ =>
    Wears Touching old new ∧ pairs Touching new < pairs Touching old

theorem Strict.pairs_lt (h : Strict regex rule)
    (hfound : (regex.find rule.pattern text).found ≠ []) :
    pairs Touching (rewrite regex rule text).toList < pairs Touching text.toList := by
  rw [← rewritten_find, ← original_find rule text]
  exact (h text).pairs_lt (by simpa [pieces] using hfound)

theorem render_literal {name pattern : String} {replacement : String}
    (h : '$' ∉ replacement.toList) (groups : List (Option String)) :
    renderReplacement ⟨name, pattern, replacement⟩ groups = replacement.toList := by
  cases groups with
  | nil => rfl
  | cons first groups =>
    have happend := replaceGroup_append (first.getD "").toList h []
    simpa [renderReplacement, replaceGroup] using happend

theorem render_kept {name pattern : String} {front : List Char} {groups : List (Option String)}
    (replacement marker : String) (hgroup : FirstGroup groups front)
    (hkeeps : replacement.toList = '$' :: '1' :: marker.toList) (hmarker : '$' ∉ marker.toList) :
    renderReplacement ⟨name, pattern, replacement⟩ groups = front ++ marker.toList := by
  obtain ⟨first, groups, rfl⟩ : ∃ first rest, groups = first :: rest := by
    cases groups with
    | nil => cases hgroup
    | cons first groups => exact ⟨first, groups, rfl⟩
  obtain rfl : first = some (String.ofList front) := Option.some.inj hgroup
  have happend := replaceGroup_append front hmarker []
  rw [List.append_nil, replaceGroup, List.append_nil] at happend
  rw [renderReplacement, hkeeps, Option.getD_some, String.toList_ofList, replaceGroup, happend]

theorem strict_header (h : regex.Documented) (name : String) :
    Strict regex ⟨name, headerBearerPattern, "$1[REDACTED:bearer]"⟩ := by
  intro text
  refine (h.headerBearer.each _ _ text).mono ?_
  rintro old new after ⟨groups, ⟨front, blank, token, rfl, hfront, hblank, htoken, hgroup⟩, rfl⟩
  rw [render_kept "$1[REDACTED:bearer]" "[REDACTED:bearer]" hgroup (by decide) (by decide)]
  obtain ⟨hwears, hpairs⟩ := wears_kept token (by simp [hfront] : front ++ blank ≠ [])
    (⟨by decide, ']', by decide, .inl rfl⟩ : Closed "[REDACTED:bearer]".toList)
    (joint_bracket _ _)
  exact ⟨hwears, hpairs ▸ touching_blank_token hblank htoken⟩

/-- A match that starts with a word of letters. -/
theorem strict_word {pattern replacement word : String} {c : Char} {tail marker : List Char}
    (hform : regex.Finds pattern (wordForm word)) (hword : word.toList = c :: tail)
    (hc : ∀ d ∈ caseForms c, isTokenChar d = true)
    (hmarker : replacement.toList = c.toUpper :: marker)
    (hdash : c.toUpper ≠ '-' ∧ c.toUpper ≠ '/') (hclosed : Closed replacement.toList)
    (hdollar : '$' ∉ replacement.toList) (name : String) :
    Strict regex ⟨name, pattern, replacement⟩ := by
  intro text
  refine (hform.each _ _ text).mono ?_
  rintro old new after ⟨groups, ⟨front, blank, token, rfl, hspells, hblank, htoken⟩, rfl⟩
  rw [render_literal hdollar]
  refine ⟨wears_closed hclosed ?_, ?_⟩
  · intro a b hb hab
    rw [Spells, hword] at hspells
    obtain ⟨d, front, hd, -, rfl⟩ := List.forall₂_cons_right_iff.mp hspells
    obtain rfl : c.toUpper = b := by simpa [hmarker] using hb
    refine ⟨d, rfl, .inl ⟨?_, hc d hd⟩⟩
    rcases hab with hab | hab | hab
    · exact hab.1
    · exact absurd hab.2 hdash.1
    · exact absurd hab.2 hdash.2
  · rw [hclosed.pairs_eq]
    exact Nat.zero_lt_of_lt (touching_blank_token hblank htoken)

theorem strict_bearer {pattern : String} (hform : regex.Finds pattern (wordForm "bearer"))
    (name : String) : Strict regex ⟨name, pattern, "Bearer [REDACTED:bearer]"⟩ :=
  strict_word (c := 'b') hform rfl (by decide) rfl (by decide)
    ⟨by decide, ']', by decide, .inl rfl⟩ (by decide) name

theorem strict_basic (h : regex.Documented) (name : String) :
    Strict regex ⟨name, basicPattern, "Basic [REDACTED:basic]"⟩ :=
  strict_word (c := 'b') h.basic rfl (by decide) rfl (by decide)
    ⟨by decide, ']', by decide, .inl rfl⟩ (by decide) name

theorem pairs_pos_of_infix {part text : List Char} (h : part <:+: text)
    (hpart : 0 < pairs Touching part) : 0 < pairs Touching text := by
  obtain ⟨front, back, rfl⟩ := h
  rw [pairs_append, pairs_append]
  omega

/-- A match with touching neighbours that is replaced by a marker. -/
theorem strict_part {pattern replacement : String} {form : Form} {marker : List Char}
    (part : List Char) (hform : regex.Finds pattern form)
    (hmarker : replacement.toList = '[' :: marker) (hclosed : Closed replacement.toList)
    (hdollar : '$' ∉ replacement.toList) (hpart : 0 < pairs Touching part)
    (hin : ∀ text old groups after, form text old groups after → part <:+: old) (name : String) :
    Strict regex ⟨name, pattern, replacement⟩ := by
  intro text
  refine (hform.each _ _ text).mono ?_
  rintro old new after ⟨groups, hold, rfl⟩
  rw [render_literal hdollar]
  refine ⟨wears_closed hclosed ?_, ?_⟩
  · intro a b hb hab
    obtain rfl : '[' = b := by simpa [hmarker] using hb
    exact absurd hab (not_touching_bracket a)
  · rw [hclosed.pairs_eq]
    exact pairs_pos_of_infix (hin _ _ _ _ hold) hpart

theorem strict_pem (h : regex.Documented) (name : String) :
    Strict regex ⟨name, pemPattern, "[REDACTED:pem-block]"⟩ :=
  strict_part "-----BEGIN ".toList h.pem rfl ⟨by decide, ']', by decide, .inl rfl⟩ (by decide)
    (by decide) (fun _ _ _ _ hold => List.IsPrefix.isInfix hold) name

theorem strict_userinfo (h : regex.Documented) (name : String) :
    Strict regex ⟨name, userinfoPattern, "[REDACTED:userinfo]@"⟩ :=
  strict_part "://".toList h.userinfo rfl ⟨by decide, '@', by decide, .inr rfl⟩ (by decide)
    (by decide) (fun _ _ _ _ hold => hold) name

/-! ### Rules whose matches may be their own replacements -/

/-- The text that stands for a field with too many matches. -/
def tooManyMarker : String := "[REDACTED:fail-closed:too_many_matches]"

/-- What changes a match changes the text, and no rule finds anything in the marker of too
many matches. -/
structure Effective (regex : RegexCrate) (rule : RedactionRule) : Prop where
  changes : ∀ text, Rewrites regex rule text → rewrite regex rule text ≠ text
  silent : (regex.find rule.pattern tooManyMarker).found = []

structure Soft (regex : RegexCrate) (rule : RedactionRule) : Prop
    extends Effective regex rule where
  worn : ∀ text, EachMatch regex rule text fun old new _ => Wears Touching old new

/-- A match stands in the text. -/
theorem infix_of_found {form : Form} (h : regex.Finds rule.pattern form) {text : String}
    (hfound : (regex.find rule.pattern text).found ≠ []) :
    ∃ old groups after, form text.toList old groups after ∧ old <:+: text.toList := by
  obtain ⟨f, later, hf⟩ := List.exists_cons_of_ne_nil hfound
  refine ⟨_, _, _, h text [] f later hf, ?_⟩
  rw [← regex.text_find rule.pattern text, Matches.text, hf]
  exact ⟨f.before.toList, (Matches.text ⟨later, (regex.find rule.pattern text).rest⟩), by
    simp [Matches.text]⟩

/-- The kept part of a match and the tail that gives way to a marker. `place` is where a text with
the match may part from one with the marker. -/
structure KeptPiece (marker : List Char) (place : List Char → Prop) (old : List Char)
    (groups : List (Option String)) (after front tail : List Char) : Prop where
  old_eq : old = front ++ tail
  group : FirstGroup groups front
  ne_nil : front ≠ []
  apart : joint Touching front marker = 0
  /-- The marker is not followed by what was cut off with the tail. -/
  ends : ∀ rest, tail ≠ marker → tail ++ after = marker ++ rest → rest.head? ≠ after.head?
  places : ∀ p, p <+: marker → tail ≠ marker → (p = marker → marker <+: tail ++ after) →
    place (front ++ p)

/-- Rules that keep the first group: a match that is not its own replacement makes the text part
at such a place. -/
structure Keeping (regex : RegexCrate) (rule : RedactionRule) (place : List Char → Prop) :
    Prop where
  worn : ∀ text, EachMatch regex rule text fun old new _ => Wears Touching old new
  parts : ∀ text, Rewrites regex rule text →
    ∃ front, place front ∧ PartAfter front text.toList (rewrite regex rule text).toList

theorem Keeping.soft {place : List Char → Prop} (h : Keeping regex rule place)
    (hsilent : (regex.find rule.pattern tooManyMarker).found = []) : Soft regex rule where
  worn := h.worn
  changes text hrewrites heq := by
    obtain ⟨_, -, hpart⟩ := h.parts text hrewrites
    exact hpart.ne (congrArg String.toList heq.symm)
  silent := hsilent

theorem keeping_of_pieces {pattern replacement : String} {form : Form} {place : List Char → Prop}
    (marker : String) (hform : regex.Finds pattern form)
    (hkeeps : replacement.toList = '$' :: '1' :: marker.toList) (hdollar : '$' ∉ marker.toList)
    (hclosed : Closed marker.toList) (hplace : ∀ start front, place front → place (start ++ front))
    (h : ∀ text old groups after, form text old groups after →
      ∃ front tail, KeptPiece marker.toList place old groups after front tail) (name : String) :
    Keeping regex ⟨name, pattern, replacement⟩ place := by
  have heach : ∀ text, EachMatch regex ⟨name, pattern, replacement⟩ text fun old new after =>
      ∃ front tail groups, KeptPiece marker.toList place old groups after front tail ∧
        new = front ++ marker.toList := by
    intro text
    refine (hform.each name replacement text).mono ?_
    rintro old new after ⟨groups, hold, rfl⟩
    obtain ⟨front, tail, hpiece⟩ := h _ old groups after hold
    exact ⟨front, tail, groups, hpiece,
      render_kept replacement marker hpiece.group hkeeps hdollar⟩
  refine ⟨fun text => (heach text).mono ?_, fun text hrewrites => ?_⟩
  · rintro old new after ⟨front, tail, groups, hpiece, rfl⟩
    rw [hpiece.old_eq]
    exact (wears_kept tail hpiece.ne_nil hclosed hpiece.apart).1
  rw [← rewritten_find, ← original_find _ text]
  refine EachPiece.parts (heach text) hplace ?_ ?_ ?_
  · rintro old new after ⟨front, tail, groups, hpiece, rfl⟩
    obtain ⟨c, l, hfront⟩ := List.exists_cons_of_ne_nil hpiece.ne_nil
    exact ⟨c, l ++ tail, l ++ marker.toList, by rw [hpiece.old_eq, hfront]; rfl, by
      rw [hfront]; rfl⟩
  · rintro old new after after' ⟨front, tail, groups, hpiece, rfl⟩ hne hhead
    have htail : tail ≠ marker.toList := by
      rintro rfl
      exact hne hpiece.old_eq.symm
    rw [hpiece.old_eq, List.append_assoc, List.append_assoc]
    by_cases hmarker : marker.toList <+: tail ++ after
    · obtain ⟨rest, hrest⟩ := hmarker
      refine ⟨front ++ marker.toList, hpiece.places _ (List.prefix_refl _) htail fun _ =>
        ⟨rest, hrest⟩,
        rest, after', by rw [← hrest, List.append_assoc], by rw [List.append_assoc], ?_⟩
      rw [hhead]
      exact hpiece.ends rest htail hrest.symm
    · obtain ⟨p, hp, hpne, hpart⟩ := partAfter_of_not_prefix hmarker after'
      exact ⟨front ++ p, hpiece.places p hp htail fun heq => absurd heq hpne, hpart.prepend front⟩
  · obtain ⟨f, hf, hne⟩ := hrewrites
    exact ⟨_, List.mem_map_of_mem hf, hne⟩

/-- What follows a value that took all it could. -/
theorem Greedy.ends {p : Char → Bool} {value after marker : List Char} (h : Greedy p value after)
    (hmarker : ∀ c ∈ marker, p c = true) (rest : List Char) (hne : value ≠ marker)
    (heq : value ++ after = marker ++ rest) : rest.head? ≠ after.head? := by
  rcases List.append_eq_append_iff.mp heq with ⟨more, rfl, hafter⟩ | ⟨more, rfl, hrest⟩
  · cases more with
    | nil => exact absurd (List.append_nil _).symm hne
    | cons c more =>
      have hstop := h.2 c (by rw [hafter]; rfl)
      rw [hmarker c (by simp)] at hstop
      cases hstop
  · cases more with
    | nil => exact absurd (List.append_nil _) hne
    | cons c more =>
      intro hhead
      have hstop := h.2 c (by rw [← hhead, hrest]; rfl)
      rw [h.1.2 c (by simp)] at hstop
      cases hstop

/-- In the marker of an assignment. -/
def InMarker (front : List Char) : Prop :=
  ∃ p, p ≠ [] ∧ p <:+ front ∧ p <+: "=[REDACTED]".toList

/-- What the last two letters of a name may be. -/
def nameEnds : List (List Char) :=
  [('e', 'y'), ('e', 'n'), ('e', 't'), ('r', 'd'), ('w', 'd')].flatMap fun ends =>
    (caseForms ends.1).flatMap fun c => (caseForms ends.2).map fun d => [c, d]

def InAssignment (front : List Char) : Prop := InMarker front ∨ ∃ ends ∈ nameEnds, ends <:+ front

def InUserinfo (front : List Char) : Prop :=
  ∃ p, "://".toList ++ p <:+ front ∧ p <+: "[REDACTED:userinfo]@".toList ∧
    p ≠ "[REDACTED:userinfo]@".toList

theorem InMarker.prepend {front : List Char} (h : InMarker front) (start : List Char) :
    InMarker (start ++ front) := by
  obtain ⟨p, hne, hsuffix, hp⟩ := h
  exact ⟨p, hne, hsuffix.trans (List.suffix_append _ _), hp⟩

theorem InAssignment.prepend {front : List Char} (h : InAssignment front) (start : List Char) :
    InAssignment (start ++ front) := by
  rcases h with h | ⟨ends, hends, hsuffix⟩
  · exact .inl (h.prepend start)
  · exact .inr ⟨ends, hends, hsuffix.trans (List.suffix_append _ _)⟩

set_option maxRecDepth 4000 in
theorem not_inUserinfo_of_inAssignment {front : List Char} (h : InAssignment front) :
    ¬InUserinfo front := by
  rintro ⟨p, hsuffix, hp, hne⟩
  have hinits := (List.mem_inits _ _).mpr hp
  rcases h with ⟨q, hq, hqsuffix, hqp⟩ | ⟨ends, hends, hesuffix⟩
  · have happart : ∀ p ∈ "[REDACTED:userinfo]@".toList.inits, ∀ q ∈ "=[REDACTED]".toList.inits,
        q ≠ [] → p ≠ "[REDACTED:userinfo]@".toList →
          ¬q <:+ "://".toList ++ p ∧ ¬"://".toList ++ p <:+ q := by decide
    obtain ⟨hleft, hright⟩ := happart p hinits q ((List.mem_inits _ _).mpr hqp) hq hne
    exact (List.suffix_or_suffix_of_suffix hqsuffix hsuffix).elim hleft hright
  · have happart : ∀ p ∈ "[REDACTED:userinfo]@".toList.inits, ∀ ends ∈ nameEnds,
        ¬ends <:+ "://".toList ++ p ∧ ¬"://".toList ++ p <:+ ends := by decide
    obtain ⟨hleft, hright⟩ := happart p hinits ends hends
    exact (List.suffix_or_suffix_of_suffix hesuffix hsuffix).elim hleft hright

theorem EndsName.ends {name : List Char} (h : EndsName name) :
    ∃ ends ∈ nameEnds, ends <:+ name := by
  obtain ⟨word, hword, front, ending, rfl, hspells⟩ := h
  have hlast : ∀ word ∈ nameEndings, ∃ start c d, word.toList = start ++ [c, d] ∧
      (c, d) ∈ [('e', 'y'), ('e', 'n'), ('e', 't'), ('r', 'd'), ('w', 'd')] := by
    intro word hword
    simp only [nameEndings, List.mem_cons, List.not_mem_nil, or_false] at hword
    rcases hword with rfl | rfl | rfl | rfl | rfl | rfl
    · exact ⟨['k'], 'e', 'y', by decide⟩
    · exact ⟨['t', 'o', 'k'], 'e', 'n', by decide⟩
    · exact ⟨['s', 'e', 'c', 'r'], 'e', 't', by decide⟩
    · exact ⟨['p', 'a', 's', 's', 'w', 'o'], 'r', 'd', by decide⟩
    · exact ⟨['p', 'a', 's', 's'], 'w', 'd', by decide⟩
    · exact ⟨['p'], 'w', 'd', by decide⟩
  obtain ⟨start, c, d, hstart, hmem⟩ := hlast word hword
  rw [Spells, hstart] at hspells
  have hdrop := List.forall₂_drop_append ending start [c, d] hspells
  obtain ⟨c', rest, hc, hrest, heq⟩ := List.forall₂_cons_right_iff.mp hdrop
  obtain ⟨d', rest', hd, hrest', rfl⟩ := List.forall₂_cons_right_iff.mp hrest
  obtain rfl := List.forall₂_nil_right_iff.mp hrest'
  refine ⟨[c', d'], List.mem_flatMap.mpr ⟨(c, d), hmem, List.mem_flatMap.mpr ⟨c', hc,
    List.mem_map_of_mem hd⟩⟩, ?_⟩
  rw [← heq]
  exact (List.drop_suffix _ _).trans (List.suffix_append _ _)

/-- Before the marker of an assignment stands no blank. -/
theorem joint_assignment {name : List Char}
    (h : ∀ c, name.getLast? = some c → isWhitespace c = false) :
    joint Touching name "=[REDACTED]".toList = 0 := by
  unfold joint
  split
  · rename_i a b ha hb
    obtain rfl : '=' = b := Option.some.inj hb
    exact if_neg (by simp [Touching, h a ha])
  · rfl

theorem IsGap.eq_of_marker {separators gap value rest : List Char} (h : IsGap separators gap)
    (heq : gap ++ value = "=[REDACTED]".toList ++ rest) : gap = ['='] := by
  obtain ⟨front, c, back, rfl, -, hblank⟩ := h
  have hother : ∀ d, d = '=' ∨ d = '[' → (isWhitespace d || isQuote d) = false := by
    rintro d (rfl | rfl) <;> decide
  cases front with
  | nil =>
    cases back with
    | nil => rw [List.cons.inj heq |>.1]; rfl
    | cons d back =>
      obtain ⟨-, hd⟩ := List.cons.inj heq
      have hfalse := hother d (.inr (List.cons.inj hd).1)
      rw [hblank d (by simp)] at hfalse
      cases hfalse
  | cons d front =>
    have hfalse := hother d (.inl (List.cons.inj heq).1)
    rw [hblank d (by simp)] at hfalse
    cases hfalse

/-- The tail of an assignment, against the marker in its place. -/
theorem assignment_ends {separators gap value after : List Char} (hgap : IsGap separators gap)
    (hvalue : (∃ c rest, value = c :: rest ∧ isQuote c = true) ∨
      ∃ p : Char → Bool, Greedy p value after ∧ ∀ c ∈ "[REDACTED]".toList, p c = true)
    (rest : List Char) (hne : gap ++ value ≠ "=[REDACTED]".toList)
    (heq : gap ++ value ++ after = "=[REDACTED]".toList ++ rest) : rest.head? ≠ after.head? := by
  rw [List.append_assoc] at heq
  obtain rfl := hgap.eq_of_marker heq
  have htail : value ++ after = "[REDACTED]".toList ++ rest := (List.cons.inj heq).2
  rcases hvalue with ⟨c, more, rfl, hc⟩ | ⟨p, hgreedy, hp⟩
  · rw [show c = '[' from (List.cons.inj htail).1] at hc
    cases hc
  · exact hgreedy.ends hp rest (fun heq' => hne (by rw [heq']; rfl)) htail

theorem mem_tooManyMarker : ∀ c ∈ tooManyMarker.toList,
    (isWhitespace c || isQuote c) = false ∧ c ≠ '=' ∧ c ≠ '/' := by
  decide

theorem keeping_assignment {pattern : String} (hform : regex.Finds pattern assignmentForm)
    (name : String) : Keeping regex ⟨name, pattern, "$1=[REDACTED]"⟩ InAssignment := by
  refine keeping_of_pieces "=[REDACTED]" hform rfl (by decide)
    ⟨by decide, ']', by decide, .inl rfl⟩ (fun start _ h => h.prepend start) ?_ name
  rintro text old groups after ⟨name, gap, value, rfl, hname, hgap, hvalue, hgroup⟩
  obtain ⟨ends, hends, hsuffix⟩ := hname.ends
  have hlast : ∀ ends ∈ nameEnds, ends ≠ [] ∧
      (ends.getLast?.all fun c => !isWhitespace c) = true := by decide
  obtain ⟨hne, hblank⟩ := hlast ends hends
  refine ⟨name, gap ++ value, rfl, hgroup, fun hnil => hne (List.suffix_nil.mp (hnil ▸ hsuffix)),
    joint_assignment fun c hc => ?_, assignment_ends hgap (.inr ⟨_, hvalue, by decide⟩),
    fun p hp _ _ => ?_⟩
  · obtain ⟨front, rfl⟩ := hsuffix
    rw [List.getLast?_append_of_ne_nil front hne] at hc
    simpa [hc] using hblank
  by_cases hnil : p = []
  · subst hnil
    rw [List.append_nil]
    exact .inr ⟨ends, hends, hsuffix⟩
  · exact .inl ⟨p, hnil, List.suffix_append _ _, hp⟩

theorem soft_assignment {pattern : String} (hform : regex.Finds pattern assignmentForm)
    (name : String) : Soft regex ⟨name, pattern, "$1=[REDACTED]"⟩ := by
  refine (keeping_assignment hform name).soft ?_
  by_contra hfound
  obtain ⟨_, _, _, ⟨name, gap, value, rfl, hname, hgap, -⟩, hin⟩ := infix_of_found hform hfound
  obtain ⟨ends, hends, before, rfl⟩ := hname.ends
  obtain ⟨front, c, back, rfl, hc, hblank⟩ := hgap
  have hmem : ∀ d ∈ front ++ c :: back, d ∈ tooManyMarker.toList := fun d hd =>
    hin.subset (by simp only [List.mem_append] at hd ⊢; tauto)
  obtain rfl : front = [] := by
    cases front with
    | nil => rfl
    | cons d front =>
      have hfalse := (mem_tooManyMarker d (hmem d (by simp))).1
      rw [hblank d (by simp)] at hfalse
      cases hfalse
  obtain rfl : c = ':' := by
    have hne := (mem_tooManyMarker c (hmem c (by simp))).2.1
    simpa [hne] using hc
  have hnone : ∀ ends ∈ nameEnds, ¬ends ++ [':'] <:+: tooManyMarker.toList := by decide
  refine hnone ends hends (List.IsInfix.trans ⟨before, back ++ value, ?_⟩ hin)
  simp

theorem soft_env (h : regex.Documented) (name : String) :
    Soft regex ⟨name, envPattern, "$1=[REDACTED]"⟩ := by
  have hanywhere : ∀ start front : List Char, True → True := fun _ _ h => h
  refine (keeping_of_pieces "=[REDACTED]" h.env rfl (by decide)
    ⟨by decide, ']', by decide, .inl rfl⟩ hanywhere ?_ name).soft ?_
  · rintro text old groups after ⟨name, gap, value, rfl, hname, hgap, hvalue, hgroup⟩
    refine ⟨name, gap ++ value, rfl, hgroup, hname.1, joint_assignment fun c hc => ?_,
      assignment_ends hgap (hvalue.imp_right fun hgreedy => ⟨_, hgreedy, by decide⟩),
      fun _ _ _ _ => trivial⟩
    simpa using hname.2 c (List.mem_of_getLast? hc)
  · by_contra hfound
    obtain ⟨_, _, _, ⟨name, _, value, rfl, -, ⟨front, c, back, rfl, hc, -⟩, -⟩, hin⟩ :=
      infix_of_found h.env hfound
    have hmem : c ∈ tooManyMarker.toList := hin.subset (by simp)
    exact (mem_tooManyMarker c hmem).2.1 (by simpa using hc)

theorem keeping_query (h : regex.Documented) (name : String) :
    Keeping regex ⟨name, queryPattern, "$1[REDACTED]"⟩ InAssignment := by
  refine keeping_of_pieces "[REDACTED]" h.query rfl (by decide)
    ⟨by decide, ']', by decide, .inl rfl⟩ (fun start _ h => h.prepend start) ?_ name
  rintro text old groups after ⟨key, value, rfl, hvalue, hgroup⟩
  refine ⟨key ++ ['='], value, rfl, hgroup, by simp, joint_bracket _ _, hvalue.ends (by decide),
    fun p hp _ _ => .inl ⟨'=' :: p, by simp, ⟨key, by simp⟩, ?_⟩⟩
  exact List.cons_prefix_cons.mpr ⟨rfl, hp⟩

theorem soft_query (h : regex.Documented) (name : String) :
    Soft regex ⟨name, queryPattern, "$1[REDACTED]"⟩ := by
  refine (keeping_query h name).soft ?_
  by_contra hfound
  obtain ⟨_, _, _, ⟨key, value, rfl, -⟩, hin⟩ := infix_of_found h.query hfound
  exact (mem_tooManyMarker '=' (hin.subset (by simp))).2.1 rfl

theorem keeping_schemeUserinfo (h : regex.Documented) (name : String) :
    Keeping regex ⟨name, schemeUserinfoPattern, "$1[REDACTED:userinfo]@"⟩ InUserinfo := by
  refine keeping_of_pieces "[REDACTED:userinfo]@" h.schemeUserinfo rfl (by decide)
    ⟨by decide, '@', by decide, .inr rfl⟩ ?_ ?_ name
  · rintro start front ⟨p, hsuffix, hp⟩
    exact ⟨p, hsuffix.trans (List.suffix_append _ _), hp⟩
  rintro text old groups after ⟨scheme, userinfo, rfl, hat, hgroup⟩
  -- both end at their first `@`
  have hfirst : ∀ l rest : List Char, '@' ∉ l → (l ++ '@' :: rest).takeWhile (· ≠ '@') = l := by
    intro l rest hl
    rw [List.takeWhile_append_of_pos fun c hc => by simpa using ne_of_mem_of_not_mem hc hl]
    simp
  have hsame : ∀ rest, userinfo ++ ['@'] ++ after = "[REDACTED:userinfo]@".toList ++ rest →
      userinfo ++ ['@'] = "[REDACTED:userinfo]@".toList := by
    intro rest heq
    have hsplit : userinfo ++ '@' :: after = "[REDACTED:userinfo]".toList ++ '@' :: rest := by
      simpa using heq
    have huserinfo := hfirst userinfo after hat
    rw [hsplit, hfirst _ rest (by decide)] at huserinfo
    rw [← huserinfo]
    rfl
  refine ⟨scheme ++ "://".toList, userinfo ++ ['@'], rfl, hgroup, by simp, joint_bracket _ _,
    fun rest hne heq => absurd (hsame rest heq) hne, fun p hp hne hfull => ?_⟩
  refine ⟨p, ⟨scheme, by simp⟩, hp, fun heq => hne ?_⟩
  obtain ⟨rest, hrest⟩ := hfull heq
  exact hsame rest hrest.symm

theorem soft_schemeUserinfo (h : regex.Documented) (name : String) :
    Soft regex ⟨name, schemeUserinfoPattern, "$1[REDACTED:userinfo]@"⟩ := by
  refine (keeping_schemeUserinfo h name).soft ?_
  by_contra hfound
  obtain ⟨_, _, _, ⟨scheme, userinfo, rfl, -⟩, hin⟩ := infix_of_found h.schemeUserinfo hfound
  exact (mem_tooManyMarker '/' (hin.subset (by simp))).2.2 rfl

theorem soft_blob (h : regex.Documented) (name : String) :
    Soft regex ⟨name, blobPattern, "[REDACTED:auth-blob]"⟩ where
  worn text := by
    refine (h.blob.each _ _ text).mono ?_
    rintro old new after ⟨groups, -, rfl⟩
    rw [render_literal (by decide : '$' ∉ "[REDACTED:auth-blob]".toList)]
    refine wears_closed ⟨by decide, ']', by decide, .inl rfl⟩ fun a b hb hab => ?_
    obtain rfl : '[' = b := Option.some.inj hb
    exact absurd hab (not_touching_bracket a)
  changes text hrewrites := by
    intro heq
    obtain ⟨f, hf, -⟩ := hrewrites
    have hfound := List.length_pos_of_mem hf
    obtain ⟨_, _, _, ⟨-, hblob⟩, -⟩ := infix_of_found h.blob (List.ne_nil_of_length_pos hfound)
    have hmarker : markerStart <:+: "[REDACTED:auth-blob]".toList := by decide
    have hmarked : Marked (rewrite regex ⟨name, blobPattern, "[REDACTED:auth-blob]"⟩ text) :=
      replaceAll_marked hmarker hfound
    rw [heq] at hmarked
    have hbracket := hblob.2 '[' (hmarked.subset (by decide))
    cases hbracket
  silent := by
    by_contra hfound
    obtain ⟨_, _, _, ⟨-, hblob⟩, -⟩ := infix_of_found h.blob hfound
    have hbracket := hblob.2 '[' (by decide)
    cases hbracket

/-! ### The rules of a field -/

variable (regex) in
def rewriteAll (rules : List RedactionRule) (text : String) : String :=
  rules.foldl (fun text rule => rewrite regex rule text) text

theorem rewriteAll_of_left {rules : List RedactionRule}
    (h : ∀ rule ∈ rules, rewrite regex rule text = text) : rewriteAll regex rules text = text := by
  induction rules with
  | nil => rfl
  | cons rule rules ih =>
    obtain ⟨hrule, hrules⟩ := List.forall_mem_cons.mp h
    rw [rewriteAll, List.foldl_cons, hrule]
    exact ih hrules

theorem Soft.pairs_le (h : Soft regex rule) (text : String) :
    pairs Touching (rewrite regex rule text).toList ≤ pairs Touching text.toList := by
  rw [← rewritten_find, ← original_find rule text]
  exact (h.worn text).pairs_le

/-- A rule that always changes its matches finds none when it leaves the neighbours. -/
theorem Strict.still (h : Strict regex rule)
    (hle : pairs Touching text.toList ≤ pairs Touching (rewrite regex rule text).toList) :
    (regex.find rule.pattern text).found = [] ∧ rewrite regex rule text = text := by
  have hfound : (regex.find rule.pattern text).found = [] := by
    by_contra hne
    exact absurd (h.pairs_lt hne) (not_lt.mpr hle)
  refine ⟨hfound, rewrite_of_not_rewrites ?_⟩
  rintro ⟨f, hf, -⟩
  rw [hfound] at hf
  cases hf

theorem Strict.pairs_le (h : Strict regex rule) (text : String) :
    pairs Touching (rewrite regex rule text).toList ≤ pairs Touching text.toList := by
  by_contra hlt
  rw [(h.still (Nat.lt_of_not_le hlt).le).2] at hlt
  exact hlt le_rfl

theorem Strict.effective (h : Strict regex rule) : Effective regex rule := by
  refine ⟨fun text ⟨f, hf, _⟩ heq => ?_, ?_⟩
  · have hlt := h.pairs_lt (List.ne_nil_of_mem hf)
    rw [heq] at hlt
    exact lt_irrefl _ hlt
  · have hnone : pairs Touching tooManyMarker.toList = 0 := by decide
    exact (h.still (hnone ▸ Nat.zero_le _)).1

/-- Effective rules that leave a text one by one if they give it back together. -/
structure Settles (regex : RegexCrate) (rules : List RedactionRule) : Prop where
  effective : ∀ rule ∈ rules, Effective regex rule
  pairs_le : ∀ text, pairs Touching (rewriteAll regex rules text).toList ≤
    pairs Touching text.toList
  still : ∀ text, rewriteAll regex rules text = text → ∀ rule ∈ rules,
    rewrite regex rule text = text

variable {rules : List RedactionRule}

theorem Settles.cons_strict (h : Settles regex rules) (hrule : Strict regex rule) :
    Settles regex (rule :: rules) := by
  refine ⟨List.forall_mem_cons.mpr ⟨hrule.effective, h.effective⟩,
    fun text => (h.pairs_le _).trans (hrule.pairs_le text), fun text heq => ?_⟩
  have hle := h.pairs_le (rewrite regex rule text)
  rw [show rewriteAll regex rules (rewrite regex rule text) = text from heq] at hle
  have hstill := (hrule.still hle).2
  refine List.forall_mem_cons.mpr ⟨hstill, h.still text ?_⟩
  rwa [rewriteAll, List.foldl_cons, hstill] at heq

/-- Rules that always change their matches, in a text whose neighbours they leave. -/
theorem strict_still (h : ∀ rule ∈ rules, Strict regex rule) (text : String) :
    pairs Touching (rewriteAll regex rules text).toList ≤ pairs Touching text.toList ∧
      (pairs Touching text.toList ≤ pairs Touching (rewriteAll regex rules text).toList →
        rewriteAll regex rules text = text) := by
  induction rules generalizing text with
  | nil => exact ⟨le_rfl, fun _ => rfl⟩
  | cons rule rules ih =>
    obtain ⟨hrule, hrules⟩ := List.forall_mem_cons.mp h
    obtain ⟨hle, hrest⟩ := ih hrules (rewrite regex rule text)
    refine ⟨hle.trans (hrule.pairs_le text), fun hback => ?_⟩
    have hstill := (hrule.still (hback.trans hle)).2
    rw [rewriteAll, List.foldl_cons, ← rewriteAll, hstill] at hback ⊢
    exact (ih hrules text).2 hback

theorem Settles.of_strict (h : ∀ rule ∈ rules, Strict regex rule) : Settles regex rules := by
  induction rules with
  | nil => exact ⟨(fun _ h => nomatch h), fun _ => le_rfl, fun _ _ _ h => nomatch h⟩
  | cons rule rules ih =>
    obtain ⟨hrule, hrules⟩ := List.forall_mem_cons.mp h
    exact (ih hrules).cons_strict hrule

/-- One rule that may give a match back, and then others that do not. -/
theorem Settles.cons_soft (h : Soft regex rule) (hrules : ∀ rule ∈ rules, Strict regex rule) :
    Settles regex (rule :: rules) := by
  refine ⟨List.forall_mem_cons.mpr ⟨h.toEffective, (Settles.of_strict hrules).effective⟩,
    fun text => (strict_still hrules _).1.trans (h.pairs_le text), fun text heq => ?_⟩
  have hback : rewriteAll regex rules (rewrite regex rule text) = text := heq
  have hstill := (strict_still hrules (rewrite regex rule text)).2 (by
    rw [hback]
    exact h.pairs_le text)
  have hrule : rewrite regex rule text = text := hstill.symm.trans hback
  rw [hrule] at hback
  exact List.forall_mem_cons.mpr ⟨hrule, (Settles.of_strict hrules).still text hback⟩

/-- Two rules that may give a match back, at places of different kinds. -/
theorem Settles.pair {rule' : RedactionRule} {place place' : List Char → Prop}
    (hsoft : Soft regex rule) (hsoft' : Soft regex rule') (hkeeps : Keeping regex rule place)
    (hkeeps' : Keeping regex rule' place') (happart : ∀ front, place front → ¬place' front) :
    Settles regex [rule, rule'] := by
  refine ⟨by simp [hsoft.toEffective, hsoft'.toEffective],
    fun text => (hsoft'.pairs_le _).trans (hsoft.pairs_le text), fun text heq => ?_⟩
  have hback : rewrite regex rule' (rewrite regex rule text) = text := heq
  have hrule : rewrite regex rule text = text := by
    by_contra hne
    have hfirst : Rewrites regex rule text := by
      by_contra hnot
      exact hne (rewrite_of_not_rewrites hnot)
    have hsecond : Rewrites regex rule' (rewrite regex rule text) := by
      by_contra hnot
      exact hne ((rewrite_of_not_rewrites hnot).symm.trans hback)
    obtain ⟨front, hplace, hpart⟩ := hkeeps.parts text hfirst
    obtain ⟨front', hplace', hpart'⟩ := hkeeps'.parts _ hsecond
    rw [hback] at hpart'
    obtain rfl := hpart.unique hpart'.symm
    exact happart front hplace hplace'
  rw [hrule] at hback
  simp [hrule, hback]

theorem settles_rules (h : regex.Documented) (field : FieldName) : Settles regex field.rules := by
  have htext : Settles regex rulesText :=
    ((Settles.pair (soft_assignment h.textAssignment _) (soft_schemeUserinfo h _)
      (keeping_assignment h.textAssignment _) (keeping_schemeUserinfo h _)
      fun _ => not_inUserinfo_of_inAssignment).cons_strict (strict_pem h _)).cons_strict
      (strict_bearer h.longBearer _)
  cases field with
  | toolArgument =>
    refine (Settles.cons_soft (soft_assignment h.callAssignment _) ?_).cons_strict
      (strict_header h _)
    simpa using ⟨strict_pem h _, strict_userinfo h _⟩
  | toolOutput =>
    refine (((Settles.cons_soft (soft_assignment h.callAssignment _) ?_).cons_strict
      (strict_pem h _)).cons_strict (strict_bearer h.longBearer _)).cons_strict (strict_header h _)
    simpa using strict_userinfo h _
  | environment => exact Settles.cons_soft (soft_env h _) (by simp)
  | prompt => exact htext
  | answer =>
    refine (Settles.cons_soft (soft_assignment h.textAssignment _) ?_).cons_strict
      (strict_bearer h.longBearer _)
    simpa using strict_pem h _
  | locator =>
    exact Settles.pair (soft_schemeUserinfo h _) (soft_query h _) (keeping_schemeUserinfo h _)
      (keeping_query h _) fun _ hin hnot => not_inUserinfo_of_inAssignment hnot hin
  | text => exact htext
  | authorization =>
    exact ((Settles.cons_soft (soft_blob h _) (by simp)).cons_strict (strict_basic h _)).cons_strict
      (strict_bearer h.bearer _)
  | connectionPayload =>
    exact (Settles.cons_soft (soft_assignment h.connToken _) (by simp)).cons_strict
      (strict_pem h _)

end

end Codegg.Projection
