import Codegg.Git.Reading.Branch
import Codegg.Git.Reparse

/-!
# Rendering `tag`, `branch`, `remote` and `worktree` and parsing them again
-/
namespace Codegg.Git

open Codegg.Library.ArgScan Reading

variable {canonicalize : Canonicalize} {argv args : List String} {op : GitOperation}

variable {t name : String}

section Tag

/-- A forced deletion is rendered with a flag the parser does not know, and a message makes a
tag annotated. -/
def TagRoundTrips (args : List String) : Prop :=
  let I : Reading := tagGrammar.read false args
  match I.deletes tagDeletion with
  | some _ => has (tagWord · = .force) I.dropLast = false
  | none =>
    I.has (tagWord · = .list) = false → I.operands[0]?.isSome = true →
      (I.lastTaken 0 (tagWord · = .message)).isSome = true → I.has (tagWord · = .annotate) = true

theorem tagWord_operand (ht : isFlag t = false) : tagWord t = .other := by
  by_contra h
  simp [isFlag_of_tagWord h] at ht

theorem tagStep_operand (s : TagArgs) (ht : isFlag t = false)
    (hdelete : (s.delete || s.forceDelete) = false) :
    tagStep s t = .next (if s.name.isNone then { s with name := some t }
      else if s.rev.isNone then { s with rev := some t } else s) := by
  rw [tagStep_eq, tagWord_operand ht]
  simp only [ht, hdelete, Bool.false_eq_true, if_false]
  split_ifs <;> rfl

theorem parseTag_delete (hname : isFlag name = false) :
    parseTag ["-d", name] = .ok (.tagDelete name) := by
  have hstep : tagStep { delete := true } name = .rest fun _ => .ok
      { delete := true, returned := some (.tagDelete name) } := by
    rw [tagStep_eq, tagWord_operand hname]
    simp [hname]
  rw [parseTag, show scan tagStep {} ["-d", name] = scan tagStep { delete := true } [name] from rfl,
    scan_cons_rest hstep]
  rfl

/-- The flag a forced deletion is rendered with leaves the name to a tag that is created. -/
theorem parseTag_forceDelete (hname : isFlag name = false) :
    parseTag ["-D", name] = .ok (.tagCreate name none none false) := by
  rw [parseTag, show scan tagStep {} ["-D", name] = scan tagStep {} [name] from rfl,
    scan_cons_next (tagStep_operand _ hname rfl)]
  rfl

theorem isFlag_of_deletes {deletion : String → Bool} {I : Reading}
    (h : I.deletes deletion = some name) : isFlag name = false := by
  obtain ⟨a, -, ha⟩ := Option.bind_eq_some_iff.mp h
  split_ifs at ha with hoperand
  cases ha
  simp only [Bool.and_eq_true, Bool.not_eq_true'] at hoperand
  exact hoperand.1

theorem parseTag_again (h : parseTag args = .ok op) :
    parseGitArgv canonicalize (renderArgv op) = .ok op ↔ TagRoundTrips args := by
  rw [TagRoundTrips]
  cases parseTag_reads h with
  | forceDelete name hdeletes hforce =>
    rw [hdeletes]
    refine iff_of_false (fun hagain => ?_) (by simp [hforce])
    rw [renderArgv, parseGitArgv_cons _ (by decide)] at hagain
    exact absurd ((parseTag_forceDelete (isFlag_of_deletes hdeletes)).symm.trans hagain) (by simp)
  | delete name hdeletes hforce =>
    rw [hdeletes]
    refine iff_of_true ?_ hforce
    rw [renderArgv, parseGitArgv_cons _ (by decide)]
    exact parseTag_delete (isFlag_of_deletes hdeletes)
  | list hdeletes hname =>
    rw [hdeletes]
    refine iff_of_true rfl fun hlist hoperands => ?_
    obtain hl | hnil := hname
    · simp [hl] at hlist
    · simp [hnil] at hoperands
  | create name hdeletes hlist hname =>
    rw [hdeletes]
    generalize hrev : (operands (tagGrammar.read false args))[1]? = rev
    generalize hmessage : lastTaken 0 (tagWord · = .message) (tagGrammar.read false args) =
      message
    have hoperands : isFlag name = false ∧ ∀ word ∈ rev, isFlag word = false :=
      ⟨isFlag_of_mem_operands (List.mem_of_getElem? hname),
        fun word hmem => isFlag_of_mem_operands (List.mem_of_getElem? (hrev.trans hmem))⟩
    have hwords : ∀ annotated, scan tagStep {} (pushIf annotated "-a" ++
        (name :: (rev.toList ++ pushOption "-m" message))) =
        .ok { annotated, name := some name, rev, message } := by
      intro annotated
      refine (scan_pushIf (fun b => ({ annotated := b } : TagArgs)) annotated rfl).trans ?_
      refine (scan_cons_next (tagStep_operand _ hoperands.1 rfl)).trans ?_
      have hlast : ∀ rev, scan tagStep { annotated, name := some name, rev }
          (pushOption "-m" message) = .ok { annotated, name := some name, rev, message } := by
        intro rev
        cases message <;> rfl
      cases hr : rev with
      | none => exact hlast none
      | some word =>
        refine (scan_cons_next (tagStep_operand _ (hoperands.2 word hr) rfl)).trans ?_
        exact hlast (some word)
    simp only [renderArgv, List.cons_append, List.nil_append, List.append_assoc]
    rw [parseGitArgv_cons _ (by decide)]
    change parseTag _ = _ ↔ _
    rw [parseTag, hwords]
    simp only [pure, Except.pure, hlist, hname]
    cases has (tagWord · = .annotate) (tagGrammar.read false args) <;> simp

end Tag

section Branch

/-- The rendered `-B` and a start point are not read, and of both kinds of lists only one is
rendered. -/
def BranchRoundTrips (args : List String) : Prop :=
  let I : Reading := branchGrammar.read false args
  I.deletes branchDeletion = none → ¬renames I →
    if (createdName I).isSome = true then
      I.has (branchWord · = .force) = false ∧ I.lastTaken 1 (branchWord · = .copy) = none
    else ¬(I.has (branchWord · = .all) = true ∧ I.has (branchWord · = .remotes) = true)

theorem branchWord_operand (ht : isFlag t = false) : branchWord t = .other := by
  by_contra h
  simp [isFlag_of_branchWord h] at ht

theorem branchStep_operand (s : BranchArgs) (ht : isFlag t = false)
    (hdelete : (s.deleteFlag || s.forceDelete) = false) :
    branchStep s t = .next (if s.createName.isSome then s
      else if s.renameOld.isNone then { s with createName := some t } else s) := by
  rw [branchStep_eq, branchWord_operand ht]
  simp only [ht, hdelete, Bool.false_eq_true, if_false]
  split_ifs <;> rfl

theorem parseBranch_delete (force : Bool) (name : BranchName) :
    parseBranch [if force then "-D" else "-d", name.text] = .ok (.branchDelete name force) := by
  have hflag := name.isFlag_text
  have hstep : branchStep { deleteFlag := !force, forceDelete := force } name.text =
      .rest fun _ => .ok {
        deleteFlag := !force
        forceDelete := force
        returned := some (.branchDelete name force) } := by
    rw [branchStep_eq, branchWord_operand hflag]
    cases force <;> simp [hflag]
  have hwords : scan branchStep {} [if force then "-D" else "-d", name.text] =
      scan branchStep { deleteFlag := !force, forceDelete := force } [name.text] := by
    cases force <;> rfl
  rw [parseBranch, hwords, scan_cons_rest hstep]
  rfl

/-- A start point is not read. -/
theorem scan_branch_startPoint (name : String) (startPoint : Option String) :
    ∃ s, scan branchStep { createName := some name } startPoint.toList = .ok s ∧
      s.startPoint = none ∧ s.createName = some name ∧ s.renameOld = none ∧ s.returned = none ∧
      (startPoint = none → s.forceDelete = false) := by
  cases startPoint with
  | none => exact ⟨_, rfl, rfl, rfl, rfl, rfl, fun _ => rfl⟩
  | some word =>
    rw [Option.toList_some, scan_singleton, branchStep_eq]
    cases branchWord word
    case other =>
      cases isFlag word <;> exact ⟨_, rfl, rfl, rfl, rfl, rfl, by simp⟩
    all_goals exact ⟨_, rfl, rfl, rfl, rfl, rfl, by simp⟩

theorem parseBranch_again (h : parseBranch args = .ok op) :
    parseGitArgv canonicalize (renderArgv op) = .ok op ↔ BranchRoundTrips args := by
  rw [BranchRoundTrips]
  cases parseBranch_reads h with
  | delete branch hdeletes =>
    refine iff_of_true ?_ (by simp [hdeletes])
    rw [renderArgv, parseGitArgv_cons]
    · exact parseBranch_delete _ branch
    all_goals decide
  | rename old new hdeletes hold hnew =>
    refine iff_of_true ?_ (by simp [renames, hold, hnew])
    simp only [renderArgv, List.cons_append]
    rw [parseGitArgv_cons _ (by decide)]
    change (toBranchName old.text >>= _) = _
    simp [Except.pure]
  | list hdeletes hrenames hname =>
    generalize has (branchWord · = .remotes) (branchGrammar.read false args) = remotes
    generalize has (branchWord · = .all) (branchGrammar.read false args) = all
    have hlist : parseGitArgv canonicalize (renderArgv (.branchList remotes all)) =
        .ok (.branchList (remotes && !all) all) := by
      cases remotes <;> cases all <;> rfl
    rw [hlist]
    simp only [hdeletes, hrenames, hname]
    cases remotes <;> cases all <;> simp
  | create name hdeletes hrenames hname =>
    generalize has (branchWord · = .force) (branchGrammar.read false args) = force
    generalize lastTaken 1 (branchWord · = .copy) (branchGrammar.read false args) =
      startPoint
    obtain ⟨s', hs', hnone, hcreate, hrename, hreturned, hforce⟩ :=
      scan_branch_startPoint name.text startPoint
    have hwords : scan branchStep {} (pushIf force "-B" ++ (name.text :: startPoint.toList)) =
        .ok s' := by
      refine Eq.trans ?_ hs'
      have hstep := branchStep_operand {} name.isFlag_text rfl
      cases force <;> exact scan_cons_next hstep
    simp only [renderArgv, List.cons_append, List.nil_append, List.append_assoc]
    rw [parseGitArgv_cons _ (by decide)]
    change parseBranch _ = _ ↔ _
    rw [parseBranch, hwords, ok_bind, hreturned, hrename, hcreate]
    simp only [toBranchName_text, ok_bind, hnone, pure, Except.pure, Except.ok.injEq,
      GitOperation.branchCreate.injEq, true_and, hdeletes, hrenames, hname, not_false_eq_true,
      forall_const]
    constructor
    · rintro ⟨hstart, hforced⟩
      exact ⟨hforced.symm.trans (hforce hstart.symm), hstart.symm⟩
    · rintro ⟨hforced, hstart⟩
      exact ⟨hstart.symm, (hforce hstart).trans hforced.symm⟩

end Branch

section Worktrees

theorem parseWorktree_again (hargv : parseGitArgv canonicalize argv = .ok op)
    (h : parseWorktree argv args = .ok op) : parseGitArgv canonicalize (renderArgv op) = .ok op := by
  unfold parseWorktree at h
  split at h
  · split_ifs at h
    · cases h
      rfl
    · cases h
      exact hargv
    · cases h
      rfl
  · cases h
    rfl

theorem parseRemote_again (hargv : parseGitArgv canonicalize argv = .ok op)
    (h : parseRemote argv args = .ok op) : parseGitArgv canonicalize (renderArgv op) = .ok op := by
  cases args with
  | nil =>
    cases h
    rfl
  | cons sub args =>
    simp only [parseRemote] at h
    split_ifs at h with hlist hadd hremove hset hget
    · cases h
      rfl
    · obtain ⟨name, -, h⟩ := bind_eq_ok.mp h
      obtain ⟨url, -, h⟩ := bind_eq_ok.mp h
      obtain ⟨remote, -, hop⟩ := bind_eq_ok.mp h
      cases hop
      rw [renderArgv, parseGitArgv_cons _ (by decide)]
      change parseRemote ["git", "remote", "add", remote.text, url] ["add", remote.text, url] = _
      simp [parseRemote, required]
    · obtain ⟨name, -, h⟩ := bind_eq_ok.mp h
      obtain ⟨remote, -, hop⟩ := bind_eq_ok.mp h
      cases hop
      rw [renderArgv, parseGitArgv_cons _ (by decide)]
      change parseRemote ["git", "remote", "remove", remote.text] ["remove", remote.text] = _
      simp [parseRemote, required]
    · obtain ⟨s, -, h⟩ := bind_eq_ok.mp h
      cases hfound : s.found with
      | none =>
        rw [hfound] at h
        cases h
      | some found =>
        obtain ⟨remote, url⟩ := found
        rw [hfound] at h
        obtain rfl : op = .remoteSetUrl remote url s.append := (Except.ok.inj h).symm
        have hwords : scan setUrlStep {} (pushIf s.append "--add" ++ [remote.text, url.raw]) =
            .ok { append := s.append, found := some (remote, url) } := by
          refine (scan_pushIf (fun b => ({ append := b } : SetUrlArgs)) s.append rfl).trans ?_
          have hflag := remote.isFlag_text
          have hstep : setUrlStep { append := s.append } remote.text = .rest fun rest => do
              let url ← required "remote url" rest[0]?
              let name ← toRemoteName remote.text
              return { append := s.append, found := some (name, ⟨url⟩) } := by
            simp (disch := first | assumption | decide) [setUrlStep, operand_eq_iff, hflag]
          refine (scan_cons_rest hstep).trans ?_
          simp [required]
        simp only [renderArgv, List.cons_append]
        rw [parseGitArgv_cons _ (by decide)]
        change (scan setUrlStep {} (pushIf s.append "--add" ++ [remote.text, url.raw]) >>= _) = _
        rw [hwords]
        rfl
    · obtain ⟨name, -, h⟩ := bind_eq_ok.mp h
      obtain ⟨remote, -, hop⟩ := bind_eq_ok.mp h
      cases hop
      rw [renderArgv, parseGitArgv_cons _ (by decide)]
      change parseRemote ["git", "remote", "get-url", remote.text] ["get-url", remote.text] = _
      simp [parseRemote, required]
    · cases h
      exact hargv

end Worktrees

end Codegg.Git
