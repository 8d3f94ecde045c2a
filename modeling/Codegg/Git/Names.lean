import Mathlib.Data.List.Infix
import Codegg.Library.TextLines

/-!
# Names, paths and flags

What the parser accepts as a branch name, a remote name, a revision, a path of the repository
and a pathspec, and how it tells the flags of an argument vector from its operands. A name is
kept with the proof that it was accepted.
-/
namespace Codegg.Git

variable {s : String}

section Flags

/-- A cluster of short flags that contains `flag`. -/
def isShortFlag (s : String) (flag : Char) : Bool :=
  2 ≤ s.toList.length ∧ ['-'] <+: s.toList ∧ ¬['-', '-'] <+: s.toList ∧ flag ∈ s.toList

def isFlag (s : String) : Bool := ['-'] <+: s.toList ∧ 1 < s.toList.length

def isDoubleDash (s : String) : Bool := s == "--"

@[simp] theorem isDoubleDash_iff (s : String) : isDoubleDash s = true ↔ s = "--" := by
  simp [isDoubleDash]

theorem isFlag_of_isShortFlag {flag : Char} (h : isShortFlag s flag = true) :
    isFlag s = true := by
  simp only [isShortFlag, decide_eq_true_eq] at h
  simp only [isFlag, decide_eq_true_eq]
  exact ⟨h.2.1, h.1⟩

theorem isShortFlag_eq_false (h : isFlag s = false) (flag : Char) :
    isShortFlag s flag = false := by
  cases hs : isShortFlag s flag with
  | false => rfl
  | true => simp [isFlag_of_isShortFlag hs] at h

theorem isFlag_of_long_or_short {long : String} {flag : Char} (hlong : isFlag long = true)
    (h : s = long ∨ isShortFlag s flag = true) : isFlag s = true := by
  obtain rfl | h := h
  · exact hlong
  · exact isFlag_of_isShortFlag h

/-- An operand is none of the flags. -/
theorem eq_false_of_operand {flags : String → Bool}
    (hflags : ∀ {t}, flags t = true → isFlag t = true) (hs : isFlag s = false) :
    flags s = false := by
  rw [Bool.eq_false_iff]
  intro h
  rw [hflags h] at hs
  cases hs

@[simp] theorem isShortFlag_dashes (flag : Char) : isShortFlag "--" flag = false := by
  simp [isShortFlag]

@[simp] theorem isFlag_dashes : isFlag "--" = true := by
  simp [isFlag]

end Flags

section RefNames

inductive RefError
  | empty
  | illegalCharacters (name : String)
  | startsWithDash (name : String)
  | doubleDot (name : String)
  | lockSuffix (name : String)
  | specialCharacters (name : String)
  deriving DecidableEq

def RefError.text : RefError → String
  | .empty => "empty ref name"
  | .illegalCharacters name => "ref name contains illegal characters: " ++ name
  | .startsWithDash name => "ref name starts with '-': " ++ name
  | .doubleDot name => "ref contains '..': " ++ name
  | .lockSuffix name => "ref ends with '.lock': " ++ name
  | .specialCharacters name =>
    "ref contains '~', '^', ':', '?', '*', '[', '\\': " ++ name

def validateRefName (name : String) : Except RefError Unit :=
  if name.toList = [] then .error .empty
  else if ['-'] <+: name.toList then .error (.startsWithDash name)
  else if ['.', '.'] <:+: name.toList then .error (.doubleDot name)
  else if ".lock".toList <:+ name.toList then .error (.lockSuffix name)
  else if ∃ c ∈ name.toList, c ∈ ['~', '^', ':', '?', '*', '[', '\\'] then
    .error (.specialCharacters name)
  else if '\x00' ∈ name.toList then .error (.illegalCharacters name)
  else .ok ()

structure BranchName where
  text : String
  valid : validateRefName text = .ok ()
  deriving DecidableEq

def BranchName.new (name : String) : Except RefError BranchName :=
  match h : validateRefName name with
  | .ok () => .ok ⟨name, h⟩
  | .error e => .error e

def validateRemoteName (name : String) : Except RefError Unit :=
  if name.toList = [] then .error .empty
  else if ['-'] <+: name.toList then .error (.startsWithDash name)
  else if '\x00' ∈ name.toList ∨ ['.', '.'] <:+: name.toList ∨ ' ' ∈ name.toList then
    .error (.illegalCharacters name)
  else .ok ()

structure RemoteName where
  text : String
  valid : validateRemoteName text = .ok ()
  deriving DecidableEq

def RemoteName.new (name : String) : Except RefError RemoteName :=
  match h : validateRemoteName name with
  | .ok () => .ok ⟨name, h⟩
  | .error e => .error e

structure RevisionExpr where
  text : String
  nonempty : text.toList ≠ []
  deriving DecidableEq

def RevisionExpr.new (expr : String) : Except RefError RevisionExpr :=
  if h : expr.toList = [] then .error .empty else .ok ⟨expr, h⟩

@[simp] theorem BranchName.new_text (name : BranchName) : BranchName.new name.text = .ok name := by
  unfold BranchName.new
  split
  · rfl
  · rename_i e h
    simp [name.valid] at h

@[simp] theorem RemoteName.new_text (name : RemoteName) : RemoteName.new name.text = .ok name := by
  unfold RemoteName.new
  split
  · rfl
  · rename_i e h
    simp [name.valid] at h

@[simp] theorem RevisionExpr.new_text (expr : RevisionExpr) :
    RevisionExpr.new expr.text = .ok expr := by
  simp [RevisionExpr.new, expr.nonempty]

theorem BranchName.text_of_new {name : BranchName} (h : BranchName.new s = .ok name) :
    name.text = s := by
  unfold BranchName.new at h
  split at h
  · cases h
    rfl
  · cases h

theorem RemoteName.text_of_new {name : RemoteName} (h : RemoteName.new s = .ok name) :
    name.text = s := by
  unfold RemoteName.new at h
  split at h
  · cases h
    rfl
  · cases h

theorem RevisionExpr.text_of_new {expr : RevisionExpr} (h : RevisionExpr.new s = .ok expr) :
    expr.text = s := by
  unfold RevisionExpr.new at h
  split at h
  · cases h
  · cases h
    rfl

theorem BranchName.isFlag_text (name : BranchName) : isFlag name.text = false := by
  have h := name.valid
  unfold validateRefName at h
  split_ifs at h with h₀ h₁
  simp [isFlag, h₁]

theorem RemoteName.isFlag_text (name : RemoteName) : isFlag name.text = false := by
  have h := name.valid
  unfold validateRemoteName at h
  split_ifs at h with h₀ h₁
  simp [isFlag, h₁]

end RefNames

section Paths

inductive PathError
  | nullByte
  | absolutePath (path : String)
  | pathEscape (path : String)
  | empty
  deriving DecidableEq

def PathError.text : PathError → String
  | .nullByte => "path contains NUL byte"
  | .absolutePath path => "absolute path not allowed in repository-relative context: " ++ path
  | .pathEscape path => "path escapes repository root: " ++ path
  | .empty => "path is empty"

def trimDotSlash : List Char → List Char
  | '.' :: '/' :: cs => trimDotSlash cs
  | cs => cs

/-- Collapses the `./` prefixes of a path. -/
def normalizePath (path : String) : String :=
  if trimDotSlash path.toList = [] then "." else String.ofList (trimDotSlash path.toList)

def isAbsolute (path : String) : Bool := path.toList.head? == some '/'

def escapesRoot (normalized : String) : Bool :=
  ['.', '.'] <+: normalized.toList ∨ "/../".toList <:+: normalized.toList

/-- A path below the repository root, without `./` prefixes. -/
structure RepoPath where
  text : String
  normal : normalizePath text = text
  nonempty : text.toList ≠ []
  noNul : '\x00' ∉ text.toList
  inRoot : escapesRoot text = false
  deriving DecidableEq

def Pathspec.validate (spec : String) : Except PathError Unit :=
  if spec.toList = [] then .error .empty
  else if '\x00' ∈ spec.toList then .error .nullByte
  else .ok ()

structure Pathspec where
  text : String
  valid : Pathspec.validate text = .ok ()
  deriving DecidableEq

def Pathspec.new (spec : String) : Except PathError Pathspec :=
  match h : Pathspec.validate spec with
  | .ok () => .ok ⟨spec, h⟩
  | .error e => .error e

theorem trimDotSlash_trimDotSlash (cs : List Char) :
    trimDotSlash (trimDotSlash cs) = trimDotSlash cs := by
  fun_induction trimDotSlash cs with
  | case1 cs ih => exact ih
  | case2 cs h => rw [trimDotSlash.eq_def]; split <;> simp_all

theorem trimDotSlash_suffix (cs : List Char) : trimDotSlash cs <:+ cs := by
  fun_induction trimDotSlash cs with
  | case1 cs ih => exact ih.trans ((List.suffix_cons _ _).trans (List.suffix_cons _ _))
  | case2 cs h => exact List.suffix_refl _

@[simp] theorem normalizePath_normalizePath (path : String) :
    normalizePath (normalizePath path) = normalizePath path := by
  by_cases h : trimDotSlash path.toList = []
  · simp only [normalizePath, if_pos h]
    decide +kernel
  · simp [normalizePath, h, trimDotSlash_trimDotSlash]

theorem normalizePath_nonempty (path : String) : (normalizePath path).toList ≠ [] := by
  unfold normalizePath
  split_ifs with h
  · simp
  · simpa using h

theorem normalizePath_noNul {path : String} (h : '\x00' ∉ path.toList) :
    '\x00' ∉ (normalizePath path).toList := by
  unfold normalizePath
  split_ifs with ht
  · simp
  · rw [String.toList_ofList]
    exact fun hmem => h ((trimDotSlash_suffix _).subset hmem)

/-- What the file system says of a path below the root: the error, if the path exists and
cannot be made canonical. -/
abbrev Canonicalize := String → Option String

/-- A repository path under the root of the file system, below which every path is. -/
def RepoPath.new (canonicalize : Canonicalize) (path : String) : Except PathError RepoPath :=
  if path.toList = [] then .error .empty
  else if hnul : '\x00' ∈ path.toList then .error .nullByte
  else if isAbsolute path then .error (.absolutePath path)
  else if hroot : escapesRoot (normalizePath path) then .error (.pathEscape path)
  else
    match canonicalize (normalizePath path) with
    | some e => .error (.pathEscape (path ++ ": " ++ e))
    | none =>
      .ok ⟨normalizePath path, normalizePath_normalizePath path, normalizePath_nonempty path,
        normalizePath_noNul hnul, by simpa using hroot⟩

variable {canonicalize : Canonicalize}

theorem RepoPath.text_of_new {path : RepoPath} (h : RepoPath.new canonicalize s = .ok path) :
    path.text = normalizePath s ∧ canonicalize path.text = none := by
  unfold RepoPath.new at h
  split_ifs at h
  split at h
  · cases h
  · rename_i hcan
    cases h
    exact ⟨rfl, hcan⟩

/-- A path that was accepted is accepted again, unless it became absolute when its `./`
prefixes were collapsed. -/
theorem RepoPath.new_text {path : RepoPath} (h : canonicalize path.text = none) :
    RepoPath.new canonicalize path.text =
      if isAbsolute path.text then .error (.absolutePath path.text) else .ok path := by
  have hroot : ¬escapesRoot path.text = true := by simp [path.inRoot]
  unfold RepoPath.new
  rw [if_neg path.nonempty, dif_neg path.noNul]
  by_cases habs : isAbsolute path.text = true
  · rw [if_pos habs, if_pos habs]
  · simp [path.normal, hroot, h]

@[simp] theorem Pathspec.new_text (spec : Pathspec) : Pathspec.new spec.text = .ok spec := by
  unfold Pathspec.new
  split
  · rfl
  · rename_i e h
    simp [spec.valid] at h

theorem Pathspec.text_of_new {spec : Pathspec} (h : Pathspec.new s = .ok spec) :
    spec.text = s := by
  unfold Pathspec.new at h
  split at h
  · cases h
    rfl
  · cases h

end Paths

end Codegg.Git
