import Codegg.Git.Reading.Refs

/-!
# What the parser of `branch` reads

A word moves, copies, deletes or lists; an operand names the branch to create, unless a branch
to move was named before it.
-/
namespace Codegg.Git

open Codegg.Library.ArgScan Reading

variable {I : Reading} {args : List String}

/-- What a word is to `git branch`. -/
inductive BranchWord
  | all
  | remotes
  | delete
  | force
  | move
  | copy
  | other
  deriving DecidableEq

def branchWord (t : String) : BranchWord :=
  if t = "--all" ∨ isShortFlag t 'a' then .all
  else if t = "--remotes" ∨ isShortFlag t 'r' then .remotes
  else if t = "--delete" ∨ isShortFlag t 'd' then .delete
  else if t = "--force" ∨ isShortFlag t 'D' then .force
  else if t = "--move" ∨ isShortFlag t 'm' then .move
  else if t = "--copy" ∨ isShortFlag t 'b' ∨ isShortFlag t 'c' then .copy
  else .other

def branchDeletion (t : String) : Bool :=
  decide (branchWord t = .delete) || decide (branchWord t = .force)

def branchGrammar : Grammar String Bool where
  width deleting t :=
    if branchWord t = .move ∨ branchWord t = .copy then .two
    else if deleting && !isFlag t then .rest
    else .alone
  after deleting a := deleting || branchDeletion a.head

attribute [local simp] branchGrammar Reading.deletes_append_singleton

theorem isFlag_of_branchWord {t : String} (h : branchWord t ≠ .other) : isFlag t = true := by
  unfold branchWord at h
  split_ifs at h with h₁ h₂ h₃ h₄ h₅ h₆
  · exact isFlag_of_long_or_short (by decide) h₁
  · exact isFlag_of_long_or_short (by decide) h₂
  · exact isFlag_of_long_or_short (by decide) h₃
  · exact isFlag_of_long_or_short (by decide) h₄
  · exact isFlag_of_long_or_short (by decide) h₅
  · obtain rfl | h₆ | h₆ := h₆
    · decide
    · exact isFlag_of_isShortFlag h₆
    · exact isFlag_of_isShortFlag h₆
  · exact absurd rfl h

/-- What `git branch` does at a word, by what the word is. -/
theorem branchStep_eq (s : BranchArgs) (t : String) :
    branchStep s t = match branchWord t with
      | .all => .next { s with all := true }
      | .remotes => .next { s with remotes := true }
      | .delete => .next { s with deleteFlag := true }
      | .force => .next { s with forceDelete := true }
      | .move => .two fun old new =>
        .ok { s with renameOld := old.or s.renameOld, renameNew := new.or s.renameNew }
      | .copy => .two fun name startPoint =>
        .ok { s with
          createName := name.or s.createName
          startPoint := startPoint.or s.startPoint }
      | .other =>
        if isFlag t then .next s
        else if s.deleteFlag || s.forceDelete then
          .rest fun _ => do
            let name ← toBranchName t
            return { s with returned := some (.branchDelete name s.forceDelete) }
        else if s.createName.isSome then .next s
        else if s.renameOld.isNone then .next { s with createName := some t }
        else .next s := by
  unfold branchStep branchWord
  by_cases h₁ : t = "--all" ∨ isShortFlag t 'a' = true
  · simp [if_pos h₁]
  by_cases h₂ : t = "--remotes" ∨ isShortFlag t 'r' = true
  · simp [if_neg h₁, if_pos h₂]
  by_cases h₃ : t = "--delete" ∨ isShortFlag t 'd' = true
  · simp [if_neg h₁, if_neg h₂, if_pos h₃]
  by_cases h₄ : t = "--force" ∨ isShortFlag t 'D' = true
  · simp [if_neg h₁, if_neg h₂, if_neg h₃, if_pos h₄]
  by_cases h₅ : t = "--move" ∨ isShortFlag t 'm' = true
  · simp [if_neg h₁, if_neg h₂, if_neg h₃, if_neg h₄, if_pos h₅]
  by_cases h₆ : t = "--copy" ∨ isShortFlag t 'b' = true ∨ isShortFlag t 'c' = true
  · simp [if_neg h₁, if_neg h₂, if_neg h₃, if_neg h₄, if_neg h₅, if_pos h₆]
  simp only [if_neg h₁, if_neg h₂, if_neg h₃, if_neg h₄, if_neg h₅, if_neg h₆]
  cases isFlag t <;> cases hd : s.deleteFlag <;> cases hf : s.forceDelete <;> simp

theorem branch_cuts : Cuts branchGrammar (fun s => s.deleteFlag || s.forceDelete) branchStep where
  width s t w h := by
    rw [branchStep_eq] at h
    cases hword : branchWord t <;> simp only [hword] at h
    case other =>
      split_ifs at h <;> simp_all
    all_goals
      have hflag := isFlag_of_branchWord (t := t) (by simp [hword])
      simp_all
  after s t taken s' hw happly := by
    rw [branchStep_eq] at hw happly
    cases hword : branchWord t <;> simp only [hword] at hw happly
    case other =>
      split_ifs at hw happly <;> first | (simp at hw; done) | cases happly
      all_goals simp_all [branchDeletion]
    all_goals
      cases happly
      simp [branchDeletion, hword]

/-- The operand that names a branch to create: the first, if no branch to move was named
before it. -/
def firstName (I : Reading) : Option String :=
  (operands (I.takeWhile fun a =>
    !(decide (branchWord a.head = .move) && !a.taken.isEmpty))).head?

/-- What holds of the arguments of `git branch` while no deletion was read. -/
structure BranchArgs.Running (I : Reading) (s : BranchArgs) : Prop where
  all : s.all = I.has (branchWord · = .all)
  remotes : s.remotes = I.has (branchWord · = .remotes)
  deleteFlag : s.deleteFlag = I.has (branchWord · = .delete)
  forceDelete : s.forceDelete = I.has (branchWord · = .force)
  renameOld : s.renameOld = I.lastTaken 0 (branchWord · = .move)
  renameNew : s.renameNew = I.lastTaken 1 (branchWord · = .move)
  createName : s.createName = (I.lastTaken 0 (branchWord · = .copy)).or (firstName I)
  startPoint : s.startPoint = I.lastTaken 1 (branchWord · = .copy)
  returned : s.returned = none
  deletes : I.deletes branchDeletion = none

structure BranchArgs.Of (I : Reading) (s : BranchArgs) : Prop where
  kept : I.deletes branchDeletion = none → s.Running I
  deleted : ∀ name, I.deletes branchDeletion = some name → ∃ branch,
    toBranchName name = .ok branch ∧ s.returned =
      some (.branchDelete branch (has (branchWord · = .force) I.dropLast))

theorem has_branchDeletion (I : Reading) :
    has branchDeletion I =
      (has (branchWord · = .delete) I || has (branchWord · = .force) I) :=
  has_or I _ _

theorem firstName_append (I : Reading) (a : Arg String) :
    firstName (I ++ [a]) =
      if (lastTaken 0 (branchWord · = .move) I).isSome then firstName I
      else if isFlag a.head then firstName I
      else (firstName I).or (some a.head) := by
  unfold firstName
  set p : Arg String → Bool := fun a =>
    !(decide (branchWord a.head = .move) && !a.taken.isEmpty) with hp
  by_cases hall : ∀ b ∈ I, p b = true
  · have hnone : lastTaken 0 (branchWord · = .move) I = none := by
      rw [lastTaken_zero_eq_none]
      intro b hb
      simpa only [hp, Bool.not_eq_true'] using hall b hb
    have hself : I.takeWhile p = I := List.takeWhile_eq_self_iff.mpr hall
    rw [List.takeWhile_append, if_pos (by rw [hself]), hself, hnone]
    cases hf : isFlag a.head with
    | true => cases hpa : p a <;> simp [hpa, hf]
    | false =>
      have hpa : p a = true := by
        have hword : branchWord a.head = .other := by
          by_contra hne
          simp [isFlag_of_branchWord hne] at hf
        simp [hp, hword]
      simp [hpa, hf]
  · have hsome : (lastTaken 0 (branchWord · = .move) I).isSome = true := by
      rw [Option.isSome_iff_ne_none, ne_eq, lastTaken_zero_eq_none]
      simpa [hp] using hall
    have hlen : (I.takeWhile p).length ≠ I.length := by
      intro hlen
      have hself := (List.takeWhile_prefix p).eq_of_length hlen
      exact hall (List.takeWhile_eq_self_iff.mp hself)
    rw [List.takeWhile_append, if_neg hlen]
    simp [hsome]

theorem branch_of {s : BranchArgs} (h : scan branchStep {} args = .ok s) :
    s.Of (branchGrammar.read false args) := by
  refine branch_cuts.scan_rule (fun I s => s.Running I) (fun I s => s.Of I) ?_ ?_ ?_
    ⟨rfl, rfl, rfl, rfl, rfl, rfl, rfl, rfl, rfl, rfl⟩ h
  · rintro I s ⟨t, taken⟩ s' ⟨h₁, h₂, h₃, h₄, h₅, h₆, h₇, h₈, h₉, h₁₀⟩ hw - happly
    rw [branchStep_eq] at hw happly
    cases hword : branchWord t <;> simp only [hword] at hw happly
    case other =>
      cases hflag : isFlag t with
      | true =>
        simp only [hflag, if_true] at happly
        cases happly
        constructor <;> simp_all [firstName_append]
      | false =>
        by_cases hdel : (s.deleteFlag || s.forceDelete) = true
        · simp [hflag, hdel] at hw
        · have hhas : has branchDeletion I = false := by
            simpa [has_branchDeletion, ← h₃, ← h₄] using hdel
          simp only [hflag, if_neg hdel, Bool.false_eq_true, if_false] at happly
          have hfirst := firstName_append I ⟨t, taken⟩
          rw [← h₅] at hfirst
          split_ifs at happly with hcreate hold
          all_goals
            cases happly
            constructor <;> try simp_all
          · cases hc : lastTaken 0 (branchWord · = .copy) I <;>
              cases hf : firstName I <;> simp_all
    all_goals
      have hflag := isFlag_of_branchWord (t := t) (by simp [hword])
      cases happly
      constructor <;> simp_all [firstName_append, Option.or_assoc]
  · rintro I s ⟨t, taken⟩ s' ⟨h₁, h₂, h₃, h₄, h₅, h₆, h₇, h₈, h₉, h₁₀⟩ hw happly
    rw [branchStep_eq] at hw happly
    cases hword : branchWord t <;> simp only [hword] at hw happly
    case all | remotes | delete | force | move | copy => simp at hw
    by_cases hflag : isFlag t = true
    · simp [hflag] at hw
    by_cases hdel : (s.deleteFlag || s.forceDelete) = true
    · simp only [if_neg hflag, if_pos hdel, Step.apply_rest] at happly
      obtain ⟨branch, hbranch, happly⟩ := bind_eq_ok.mp happly
      cases happly
      have hhas : has branchDeletion I = true := by
        rw [has_branchDeletion, ← h₃, ← h₄]
        exact hdel
      have hdeletes : deletes branchDeletion (I ++ [⟨t, taken⟩]) = some t := by
        simp [hflag, hhas]
      refine ⟨fun hnone => by simp [hdeletes] at hnone, fun name hname => ?_⟩
      obtain rfl : t = name := by simpa [hdeletes] using hname
      exact ⟨branch, hbranch, by simp [h₄]⟩
    · simp only [if_neg hflag, if_neg hdel] at hw
      split_ifs at hw <;> simp at hw
  · intro I s hrun
    refine ⟨fun _ => hrun, fun name hname => ?_⟩
    rw [hrun.deletes] at hname
    cases hname

/-- Both names of a branch to rename were read. -/
def renames (I : Reading) : Prop :=
  (I.lastTaken 0 (branchWord · = .move)).isSome = true ∧
    (I.lastTaken 1 (branchWord · = .move)).isSome = true

/-- The branch that is created, unless one is deleted or renamed. -/
def createdName (I : Reading) : Option String :=
  (I.lastTaken 0 (branchWord · = .copy)).or (firstName I)

/-- What `git branch` makes of its arguments. -/
inductive BranchReads (I : Reading) : GitOperation → Prop
  | delete (branch : BranchName) (hdeletes : I.deletes branchDeletion = some branch.text) :
    BranchReads I (.branchDelete branch (has (branchWord · = .force) I.dropLast))
  | rename (old new : BranchName) (hdeletes : I.deletes branchDeletion = none)
    (hold : I.lastTaken 0 (branchWord · = .move) = some old.text)
    (hnew : I.lastTaken 1 (branchWord · = .move) = some new.text) :
    BranchReads I (.branchRename old new false)
  | create (name : BranchName) (hdeletes : I.deletes branchDeletion = none)
    (hrenames : ¬renames I) (hname : createdName I = some name.text) :
    BranchReads I (.branchCreate name (I.lastTaken 1 (branchWord · = .copy))
      (I.has (branchWord · = .force)))
  | list (hdeletes : I.deletes branchDeletion = none) (hrenames : ¬renames I)
    (hname : createdName I = none) :
    BranchReads I (.branchList (I.has (branchWord · = .remotes)) (I.has (branchWord · = .all)))

theorem parseBranch_reads {op : GitOperation} (h : parseBranch args = .ok op) :
    BranchReads (branchGrammar.read false args) op := by
  obtain ⟨s, hscan, hop⟩ := bind_eq_ok.mp h
  obtain ⟨hkept, hdeleted⟩ := branch_of hscan
  cases hd : deletes branchDeletion (branchGrammar.read false args) with
  | some name =>
    obtain ⟨branch, hbranch, hreturned⟩ := hdeleted name hd
    rw [hreturned] at hop
    cases hop
    exact .delete branch (by rw [hd, text_of_toBranchName hbranch])
  | none =>
    obtain ⟨hall, hremotes, -, hforce, hold, hnew, hname, hstart, hreturned, -⟩ := hkept hd
    rw [hreturned] at hop
    by_cases hboth : s.renameOld.isSome = true ∧ s.renameNew.isSome = true
    · obtain ⟨old, hold'⟩ := Option.isSome_iff_exists.mp hboth.1
      obtain ⟨new, hnew'⟩ := Option.isSome_iff_exists.mp hboth.2
      simp only [hold', hnew'] at hop
      obtain ⟨oldName, hoText, hop⟩ := bind_eq_ok.mp hop
      obtain ⟨newName, hnText, hop⟩ := bind_eq_ok.mp hop
      cases hop
      exact .rename oldName newName hd
        (by rw [← hold, hold', text_of_toBranchName hoText])
        (by rw [← hnew, hnew', text_of_toBranchName hnText])
    · have hrenames : ¬renames (branchGrammar.read false args) := by
        rwa [renames, ← hold, ← hnew]
      cases hname' : s.createName with
      | none =>
        have hlisted : Except.ok (.branchList s.remotes s.all) = (Except.ok op : Except ParseError _) := by
          cases ho : s.renameOld <;> cases hn : s.renameNew <;>
            simp only [ho, hn, hname'] at hop hboth
          case some.some => simp at hboth
          all_goals exact hop
        cases hlisted
        rw [hall, hremotes]
        exact .list hd hrenames (by rw [createdName, ← hname, hname'])
      | some name =>
        have hcreated : (toBranchName name >>= fun name =>
            .ok (.branchCreate name s.startPoint s.forceDelete)) = Except.ok op := by
          cases ho : s.renameOld <;> cases hn : s.renameNew <;>
            simp only [ho, hn, hname'] at hop hboth
          case some.some => simp at hboth
          all_goals exact hop
        obtain ⟨branch, hbranch, hop⟩ := bind_eq_ok.mp hcreated
        cases hop
        rw [hstart, hforce]
        exact .create branch hd hrenames
          (by rw [createdName, ← hname, hname', text_of_toBranchName hbranch])

end Codegg.Git
