import Codegg.Git.Reading.Basic
import Mathlib.Data.List.TakeWhile

/-!
# What the parsers of `tag`, `branch` and `remote` read

`tag` and `branch` stop at the first operand after a flag that deletes.
-/
namespace Codegg.Git

open Codegg.Library.ArgScan Reading

section Deletion

/-- What an argument that ends the reading of a deletion deletes. -/
def Reading.deletes (deletion : String → Bool) (I : Reading) : Option String :=
  I.getLast?.bind fun a =>
    if !isFlag a.head && has deletion I.dropLast then some a.head else none

@[simp] theorem Reading.deletes_nil (deletion : String → Bool) :
    deletes deletion [] = none := rfl

theorem Reading.deletes_append_singleton (deletion : String → Bool) (I : Reading)
    (a : Arg String) :
    deletes deletion (I ++ [a]) =
      if !isFlag a.head && has deletion I then some a.head else none := by
  simp [deletes]

end Deletion

attribute [local simp] Reading.deletes_append_singleton

section Tag

variable {I : Reading} {args : List String}

/-- What a word is to `git tag`. -/
inductive TagWord
  | list
  | delete
  | force
  | annotate
  | message
  | other
  deriving DecidableEq

def tagWord (t : String) : TagWord :=
  if t = "--list" ∨ isShortFlag t 'l' then .list
  else if t = "--delete" ∨ isShortFlag t 'd' then .delete
  else if t = "--force" ∨ isShortFlag t 'f' then .force
  else if t = "--annotate" ∨ isShortFlag t 'a' then .annotate
  else if t = "--message" ∨ isShortFlag t 'm' then .message
  else .other

def tagDeletion (t : String) : Bool :=
  decide (tagWord t = .delete) || decide (tagWord t = .force)

def tagGrammar : Grammar String Bool where
  width deleting t :=
    if tagWord t = .message then .one else if deleting && !isFlag t then .rest else .alone
  after deleting a := deleting || tagDeletion a.head

attribute [local simp] tagGrammar

theorem isFlag_of_tagWord {t : String} (h : tagWord t ≠ .other) : isFlag t = true := by
  unfold tagWord at h
  split_ifs at h with h₁ h₂ h₃ h₄ h₅
  · exact isFlag_of_long_or_short (by decide) h₁
  · exact isFlag_of_long_or_short (by decide) h₂
  · exact isFlag_of_long_or_short (by decide) h₃
  · exact isFlag_of_long_or_short (by decide) h₄
  · exact isFlag_of_long_or_short (by decide) h₅
  · exact absurd rfl h

/-- What `git tag` does at a word, by what the word is. -/
theorem tagStep_eq (s : TagArgs) (t : String) :
    tagStep s t = match tagWord t with
      | .list => .next { s with list := true }
      | .delete => .next { s with delete := true }
      | .force => .next { s with forceDelete := true }
      | .annotate => .next { s with annotated := true }
      | .message => .one fun message => .ok { s with message := message.or s.message }
      | .other =>
        if isFlag t then .next s
        else if s.delete || s.forceDelete then
          .rest fun _ => .ok { s with
            returned := some (if s.forceDelete then .tagForceDelete t else .tagDelete t) }
        else if s.name.isNone then .next { s with name := some t }
        else if s.rev.isNone then .next { s with rev := some t }
        else .next s := by
  unfold tagStep tagWord
  by_cases hlist : t = "--list" ∨ isShortFlag t 'l'
  · rw [if_pos hlist, if_pos hlist]
  rw [if_neg hlist, if_neg hlist]
  by_cases hdelete : t = "--delete" ∨ isShortFlag t 'd'
  · rw [if_pos hdelete, if_pos hdelete]
  rw [if_neg hdelete, if_neg hdelete]
  by_cases hforce : t = "--force" ∨ isShortFlag t 'f'
  · rw [if_pos hforce, if_pos hforce]
  rw [if_neg hforce, if_neg hforce]
  by_cases hannotate : t = "--annotate" ∨ isShortFlag t 'a'
  · rw [if_pos hannotate, if_pos hannotate]
  rw [if_neg hannotate, if_neg hannotate]
  by_cases hmessage : t = "--message" ∨ isShortFlag t 'm'
  · rw [if_pos hmessage, if_pos hmessage]
  rw [if_neg hmessage, if_neg hmessage]
  cases hflag : isFlag t <;> simp

theorem tag_cuts : Cuts tagGrammar (fun s => s.delete || s.forceDelete) tagStep where
  width s t w h := by
    rw [tagStep_eq] at h
    cases hword : tagWord t <;> simp only [hword] at h
    case other =>
      split_ifs at h <;> simp_all
    all_goals
      have hflag := isFlag_of_tagWord (t := t) (by simp [hword])
      simp_all
  after s t taken s' hw happly := by
    rw [tagStep_eq] at hw happly
    cases hword : tagWord t <;> simp only [hword] at hw happly
    case other =>
      split_ifs at hw happly <;> first | (done) | cases happly
      all_goals simp_all [tagDeletion]
    all_goals
      cases happly
      simp [tagDeletion, hword]

/-- What holds of the arguments of `git tag` while no deletion was read. -/
structure TagArgs.Running (I : Reading) (s : TagArgs) : Prop where
  list : s.list = I.has (tagWord · = .list)
  delete : s.delete = I.has (tagWord · = .delete)
  forceDelete : s.forceDelete = I.has (tagWord · = .force)
  annotated : s.annotated = I.has (tagWord · = .annotate)
  name : s.name = I.operands[0]?
  rev : s.rev = I.operands[1]?
  message : s.message = I.lastTaken 0 (tagWord · = .message)
  returned : s.returned = none
  deletes : I.deletes tagDeletion = none

structure TagArgs.Of (I : Reading) (s : TagArgs) : Prop where
  kept : I.deletes tagDeletion = none → s.Running I
  deleted : ∀ name, I.deletes tagDeletion = some name →
    s.returned = some (if has (tagWord · = .force) I.dropLast then .tagForceDelete name
      else .tagDelete name)

theorem has_tagDeletion (I : Reading) :
    has tagDeletion I =
      (has (tagWord · = .delete) I || has (tagWord · = .force) I) :=
  has_or I _ _

theorem tag_of {s : TagArgs} (h : scan tagStep {} args = .ok s) :
    s.Of (tagGrammar.read false args) := by
  refine tag_cuts.scan_rule (fun I s => s.Running I) (fun I s => s.Of I) ?_ ?_ ?_
    ⟨rfl, rfl, rfl, rfl, rfl, rfl, rfl, rfl, rfl⟩ h
  · rintro I s ⟨t, taken⟩ s' ⟨h₁, h₂, h₃, h₄, h₅, h₆, h₇, h₈, h₉⟩ hw - happly
    rw [tagStep_eq] at hw happly
    cases hword : tagWord t <;> simp only [hword] at hw happly
    case other =>
      cases hflag : isFlag t with
      | true =>
        simp only [hflag, if_true] at happly
        cases happly
        constructor <;>
          simp_all
      | false =>
        by_cases hdel : (s.delete || s.forceDelete) = true
        · simp [hflag, hdel] at hw
        · have hhas : has tagDeletion I = false := by
            simpa [has_tagDeletion, ← h₂, ← h₃] using hdel
          have hplaces : Reading.Places I s.name s.rev := ⟨h₅, h₆⟩
          -- An operand only takes a place.
          have hkept {name rev : Option String}
              (h : Reading.Places (I ++ [⟨t, taken⟩]) name rev) :
              TagArgs.Running (I ++ [⟨t, taken⟩]) { s with name := name, rev := rev } := {
            list := by simp [h₁, hword]
            delete := by simp [h₂, hword]
            forceDelete := by simp [h₃, hword]
            annotated := by simp [h₄, hword]
            name := h.first
            rev := h.second
            message := by simp [h₇, hword]
            returned := h₈
            deletes := by simp [hhas] }
          simp only [hflag, if_neg hdel, Bool.false_eq_true, if_false] at happly
          split_ifs at happly with hname hrev <;> cases happly
          · exact hkept (hplaces.take_first hname hflag)
          · exact hkept (hplaces.take_second hname hrev hflag)
          · exact hkept (hplaces.of_full hrev hflag)
    all_goals
      have hflag := isFlag_of_tagWord (t := t) (by simp [hword])
      cases happly
      constructor <;> simp_all
  · rintro I s ⟨t, taken⟩ s' ⟨h₁, h₂, h₃, h₄, h₅, h₆, h₇, h₈, h₉⟩ hw happly
    rw [tagStep_eq] at hw happly
    cases hword : tagWord t <;> simp only [hword] at hw happly
    case list | delete | force | annotate | message => simp at hw
    by_cases hflag : isFlag t = true
    · simp [hflag] at hw
    by_cases hdel : (s.delete || s.forceDelete) = true
    · simp only [if_neg hflag, if_pos hdel, Step.apply_rest] at happly
      cases happly
      have hhas : has tagDeletion I = true := by
        rw [has_tagDeletion, ← h₂, ← h₃]
        exact hdel
      have hdeletes : deletes tagDeletion (I ++ [⟨t, taken⟩]) = some t := by
        simp [hflag, hhas]
      refine ⟨fun hnone => by simp [hdeletes] at hnone, fun name hname => ?_⟩
      obtain rfl : t = name := by simpa [hdeletes] using hname
      simp [h₃]
    · split_ifs at hw <;> simp at hw
  · intro I s hrun
    refine ⟨fun _ => hrun, fun name hname => ?_⟩
    rw [hrun.deletes] at hname
    cases hname

/-- What `git tag` makes of its arguments. -/
inductive TagReads (I : Reading) : GitOperation → Prop
  | forceDelete (name : String) (hdeletes : I.deletes tagDeletion = some name)
    (hforce : has (tagWord · = .force) I.dropLast = true) :
    TagReads I (.tagForceDelete name)
  | delete (name : String) (hdeletes : I.deletes tagDeletion = some name)
    (hforce : has (tagWord · = .force) I.dropLast = false) : TagReads I (.tagDelete name)
  | list (hdeletes : I.deletes tagDeletion = none)
    (hname : I.has (tagWord · = .list) = true ∨ I.operands = []) : TagReads I .tagList
  | create (name : String) (hdeletes : I.deletes tagDeletion = none)
    (hlist : I.has (tagWord · = .list) = false) (hname : I.operands[0]? = some name) :
    TagReads I (.tagCreate name I.operands[1]? (I.lastTaken 0 (tagWord · = .message))
      (I.has (tagWord · = .annotate)))

theorem parseTag_reads {op : GitOperation} (h : parseTag args = .ok op) :
    TagReads (tagGrammar.read false args) op := by
  obtain ⟨s, hscan, hop⟩ := bind_eq_ok.mp h
  obtain ⟨hkept, hdeleted⟩ := tag_of hscan
  cases hd : deletes tagDeletion (tagGrammar.read false args) with
  | some name =>
    rw [hdeleted name hd] at hop
    cases hforce : has (tagWord · = .force) (tagGrammar.read false args).dropLast with
    | true =>
      rw [hforce] at hop
      obtain rfl : op = .tagForceDelete name := (Except.ok.inj hop).symm
      exact .forceDelete name hd hforce
    | false =>
      rw [hforce] at hop
      obtain rfl : op = .tagDelete name := (Except.ok.inj hop).symm
      exact .delete name hd hforce
  | none =>
    obtain ⟨hlist, -, -, hannotated, hname, hrev, hmessage, hreturned, -⟩ := hkept hd
    rw [hreturned] at hop
    cases hn : s.name with
    | none =>
      have hnil : operands (tagGrammar.read false args) = [] := by
        rw [hn] at hname
        simpa using hname.symm
      simp only [hn] at hop
      split_ifs at hop <;> cases hop <;> exact .list hd (.inr hnil)
    | some name =>
      simp only [hn] at hop
      split_ifs at hop with hl
      · cases hop
        exact .list hd (.inl (by rw [← hlist]; simpa using hl))
      · cases hop
        rw [hrev, hmessage, hannotated]
        exact .create name hd (by rw [← hlist]; simpa using hl) (by rw [← hname, hn])

end Tag

end Codegg.Git
