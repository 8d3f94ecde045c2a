import Codegg.Git.Parser

/-!
# What the parsers read

Each subcommand cuts its arguments in its own way: some flags take the next word, and after
`--` everything left belongs together. What a parser makes of its arguments is said here of the
arguments as they are cut, without the loop that reads them.
-/
namespace Codegg.Git

open Codegg.Library.ArgScan

abbrev Reading := List (Arg String)

section Readings

/-- Some argument is of a kind. -/
def Reading.has (p : String → Bool) (I : Reading) : Bool := I.any fun a => p a.head

def Reading.operands (I : Reading) : List String :=
  (I.filter fun a => !isFlag a.head).map Arg.head

/-- The word that the last argument of a kind took at a place. -/
def Reading.lastTaken (place : Nat) (p : String → Bool) (I : Reading) : Option String :=
  lastSome (fun a => if p a.head then a.taken[place]? else none) I

/-- What stands after the separator. -/
def Reading.afterDashes (I : Reading) : Option (List String) :=
  lastSome (fun a => if isDoubleDash a.head then some a.taken else none) I

/-- The words read as paths: what stands after the separator, or else the operands from a place
on. -/
def Reading.pathWords (first : Nat) (I : Reading) : List String :=
  I.afterDashes.getD (I.operands.drop first)

variable (I : Reading) (a : Arg String) (p : String → Bool)

@[simp] theorem Reading.has_nil : Reading.has p [] = false := rfl

@[simp] theorem Reading.has_append_singleton :
    Reading.has p (I ++ [a]) = (Reading.has p I || p a.head) := by
  simp [Reading.has]

theorem Reading.has_or (q : String → Bool) :
    Reading.has (fun t => p t || q t) I = (Reading.has p I || Reading.has q I) := by
  unfold Reading.has
  induction I with
  | nil => rfl
  | cons a I ih =>
    simp only [List.any_cons, ih]
    ac_rfl

@[simp] theorem Reading.operands_nil : Reading.operands [] = [] := rfl

@[simp] theorem Reading.operands_append_singleton :
    Reading.operands (I ++ [a]) =
      if isFlag a.head then Reading.operands I else Reading.operands I ++ [a.head] := by
  unfold Reading.operands
  cases h : isFlag a.head <;> simp [h]

@[simp] theorem Reading.lastTaken_nil (place : Nat) : Reading.lastTaken place p [] = none := rfl

@[simp] theorem Reading.lastTaken_append_singleton (place : Nat) :
    Reading.lastTaken place p (I ++ [a]) =
      if p a.head then a.taken[place]?.or (Reading.lastTaken place p I)
      else Reading.lastTaken place p I := by
  unfold Reading.lastTaken
  rw [lastSome_append_singleton]
  split_ifs <;> simp

theorem lastTaken_zero_eq_none {p : String → Bool} {I : Reading} :
    Reading.lastTaken 0 p I = none ↔ ∀ a ∈ I, (p a.head && !a.taken.isEmpty) = false := by
  unfold Reading.lastTaken lastSome
  rw [List.getLast?_eq_none_iff, List.filterMap_eq_nil_iff]
  refine forall₂_congr fun a _ => ?_
  cases p a.head <;> cases a.taken <;> simp

@[simp] theorem Reading.afterDashes_nil : Reading.afterDashes [] = none := rfl

@[simp] theorem Reading.afterDashes_append_singleton :
    Reading.afterDashes (I ++ [a]) =
      if isDoubleDash a.head then some a.taken else Reading.afterDashes I := by
  unfold Reading.afterDashes
  rw [lastSome_append_singleton]
  split_ifs <;> simp

/-- The first two operands stand in two places. -/
structure Reading.Places (I : Reading) (x y : Option String) : Prop where
  first : x = I.operands[0]?
  second : y = I.operands[1]?

namespace Reading.Places

variable {I a} {x y : Option String}

theorem of_flag (h : I.Places x y) (hflag : isFlag a.head = true) :
    Reading.Places (I ++ [a]) x y := by
  have hops : Reading.operands (I ++ [a]) = I.operands := by
    rw [operands_append_singleton, if_pos hflag]
  exact ⟨by rw [hops, h.first], by rw [hops, h.second]⟩

theorem operands_append (hop : isFlag a.head = false) :
    Reading.operands (I ++ [a]) = I.operands ++ [a.head] := by
  rw [operands_append_singleton, if_neg (by simp [hop])]

theorem take_first (h : I.Places x y) (hx : x.isNone = true) (hop : isFlag a.head = false) :
    Reading.Places (I ++ [a]) (some a.head) y := by
  have hnil : I.operands = [] := by simpa [h.first] using hx
  refine ⟨by simp [operands_append hop, hnil], ?_⟩
  rw [h.second, operands_append hop, hnil]
  rfl

theorem take_second (h : I.Places x y) (hx : ¬x.isNone = true) (hy : y.isNone = true)
    (hop : isFlag a.head = false) : Reading.Places (I ++ [a]) x (some a.head) := by
  obtain ⟨o, ho⟩ : ∃ o, I.operands = [o] := by
    have hne : I.operands ≠ [] := by simpa [h.first] using hx
    have hle : I.operands.length ≤ 1 := by simpa [h.second] using hy
    exact List.length_eq_one_iff.mp (le_antisymm hle (List.length_pos_iff.mpr hne))
  exact ⟨by simp [h.first, operands_append hop, ho], by simp [operands_append hop, ho]⟩

theorem of_full (h : I.Places x y) (hy : ¬y.isNone = true) (hop : isFlag a.head = false) :
    Reading.Places (I ++ [a]) x y := by
  have hlt : 1 < I.operands.length := by simpa [h.second] using hy
  refine ⟨?_, ?_⟩
  · rw [h.first, operands_append hop, List.getElem?_append_left (by omega)]
  · rw [h.second, operands_append hop, List.getElem?_append_left hlt]

end Reading.Places

end Readings

section Grammars

/-- Some words take the next one, and `--` may take everything left. -/
def plain (valued : String → Bool) (separator : Bool) : Grammar String Bool where
  width _ t := if valued t then .one else if separator && isDoubleDash t then .rest else .alone
  after r _ := r

theorem afterDashes_eq_none {valued : String → Bool} {I : Reading} (hv : valued "--" = false)
    (h : ∀ b ∈ I, ∃ r, (plain valued true).width r b.head ≠ .rest) : I.afterDashes = none := by
  unfold Reading.afterDashes lastSome
  rw [List.getLast?_eq_none_iff, List.filterMap_eq_nil_iff]
  intro b hb
  obtain ⟨r, hr⟩ := h b hb
  have hd : ¬isDoubleDash b.head = true := by
    intro hd
    rw [isDoubleDash_iff] at hd
    exact hr (by simp [plain, hd, hv])
  simp [hd]

/-- A scanner that takes each word alone. -/
theorem alone_cuts {ε σ : Type} {step : σ → String → Step ε σ String}
    (h : ∀ s t, ∃ s', step s t = .next s') :
    Cuts (plain (fun _ => false) false) (fun _ => false) step where
  width s t w hw := by
    obtain ⟨s', hs⟩ := h s t
    simpa [hs, plain] using hw
  after s t taken s' _ _ := rfl

end Grammars

section Words

variable {ε α β : Type}

theorem bind_eq_ok {x : Except ε α} {f : α → Except ε β} {b : β} :
    (x >>= f) = .ok b ↔ ∃ a, x = .ok a ∧ f a = .ok b := by
  cases x with
  | error e => simp
  | ok a => simp

@[simp] theorem mapError_eq_ok {ε' : Type} {x : Except ε α} {f : ε → ε'} {a : α} :
    x.mapError f = .ok a ↔ x = .ok a := by
  cases x <;> simp [Except.mapError]

@[simp] theorem required_eq_ok {argument s : String} {o : Option String} :
    required argument o = .ok s ↔ o = some s := by
  cases o <;> simp [required]

theorem text_of_toRevisionExpr {s : String} {rev : RevisionExpr}
    (h : toRevisionExpr s = .ok rev) : rev.text = s :=
  RevisionExpr.text_of_new (mapError_eq_ok.mp h)

theorem text_of_toRemoteName {s : String} {name : RemoteName}
    (h : toRemoteName s = .ok name) : name.text = s :=
  RemoteName.text_of_new (mapError_eq_ok.mp h)

theorem text_of_toBranchName {s : String} {name : BranchName}
    (h : toBranchName s = .ok name) : name.text = s :=
  BranchName.text_of_new (mapError_eq_ok.mp h)

theorem text_of_toPathspec {s : String} {spec : Pathspec}
    (h : toPathspec s = .ok spec) : spec.text = s :=
  Pathspec.text_of_new (mapError_eq_ok.mp h)

@[simp] theorem toRevisionExpr_text (rev : RevisionExpr) : toRevisionExpr rev.text = .ok rev := by
  simp [toRevisionExpr]

@[simp] theorem toRemoteName_text (name : RemoteName) : toRemoteName name.text = .ok name := by
  simp [toRemoteName]

@[simp] theorem toBranchName_text (name : BranchName) : toBranchName name.text = .ok name := by
  simp [toBranchName]

@[simp] theorem toPathspec_text (spec : Pathspec) : toPathspec spec.text = .ok spec := by
  simp [toPathspec]

end Words

section Argv

/-- The subcommand of a command line and its arguments, and whether `-C` stands before it. -/
structure Invocation where
  hasDashC : Bool
  sub : String
  args : List String
  deriving DecidableEq

def invocation (argv : List String) : Option Invocation :=
  match argv with
  | "git" :: args =>
    match consumeGlobalOptions false args with
    | .ok ⟨hasDashC, sub :: args⟩ => some ⟨hasDashC, sub, args⟩
    | _ => none
  | _ => none

/-- The global options are read first, and with `-C` the argument vector is kept as it is. -/
theorem parseGitArgv_invocation {canonicalize : Canonicalize} {argv : List String}
    {op : GitOperation} (h : parseGitArgv canonicalize argv = .ok op) :
    ∃ inv op', invocation argv = some inv ∧
      parseSubcommand canonicalize argv inv.sub inv.args = .ok op' ∧
      op = if inv.hasDashC then managedOutsideProject argv else op' := by
  cases argv with
  | nil => cases h
  | cons git args =>
    unfold parseGitArgv at h
    dsimp only at h
    split_ifs at h with hgit
    · cases h
    · obtain rfl : git = "git" := by simpa using hgit
      obtain ⟨⟨hasDashC, rest⟩, hglobals, h⟩ := bind_eq_ok.mp h
      cases rest with
      | nil => cases h
      | cons sub args' =>
        obtain ⟨op', hop', h⟩ := bind_eq_ok.mp h
        refine ⟨⟨hasDashC, sub, args'⟩, op', by simp [invocation, hglobals], hop', ?_⟩
        split_ifs at h with hC
        · rw [if_pos hC]
          exact (Except.ok.inj h).symm
        · rw [if_neg hC]
          exact (Except.ok.inj h).symm

end Argv

end Codegg.Git
