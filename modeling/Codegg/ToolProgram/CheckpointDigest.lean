import Codegg.ToolProgram.Replay

/-!
# What the digest of a checkpoint binds

The digest of a checkpoint is taken over its material, in which the completed calls
are counted but not contained. Two checkpoints of one digest therefore restore the
same machine, budgets and pending child, and the same journal only where they name
the same calls.
-/
namespace Codegg.ToolProgram

open Codegg.Library Interp

/-! ### Checkpoints of a run carry their own digest -/

/-- The digest is the one of the checkpoint's own material. -/
def Sealed (env : Env) (cp : InterpreterCheckpoint) : Prop :=
  cp.semanticDigest = env.host.materialDigest (checkpointMaterial cp)

theorem sealed_refreshSemanticDigest (env : Env) (cp : InterpreterCheckpoint) :
    Sealed env (refreshSemanticDigest env cp) := rfl

/-- The checkpoints that were there are kept, and every other one is sealed. -/
structure Seals (env : Env) (s s' : MeteredInterpreter) : Prop where
  kept : ∀ cp ∈ s.checkpoints, cp ∈ s'.checkpoints
  added : ∀ cp ∈ s'.checkpoints, cp ∈ s.checkpoints ∨ Sealed env cp

variable {env : Env}

variable {s : MeteredInterpreter} {cp a b : InterpreterCheckpoint} {c : CompletedCall}

namespace Seals

theorem of_eq {s' : MeteredInterpreter} (h : s'.checkpoints = s.checkpoints) :
    Seals env s s' := by
  constructor
  · intro cp hcp
    rwa [h]
  · intro cp hcp
    exact Or.inl (h ▸ hcp)

theorem refl (s : MeteredInterpreter) : Seals env s s := of_eq rfl

theorem trans (a b c : MeteredInterpreter) (hab : Seals env a b) (hbc : Seals env b c) :
    Seals env a c := by
  constructor
  · intro cp hcp
    exact hbc.kept cp (hab.kept cp hcp)
  · intro cp hcp
    rcases hbc.added cp hcp with h | h
    · exact hab.added cp h
    · exact Or.inr h

end Seals

namespace Interp

theorem seals_bind {α β : Type} {x : Interp α} {f : α → Interp β}
    (hx : Moves (Seals env) x) (hf : ∀ a, Moves (Seals env) (f a)) :
    Moves (Seals env) (x >>= f) :=
  .bind .trans hx hf

theorem seals_onMachine {α : Type} (x : Exec α) : Moves (Seals env) (onMachine x) := by
  intro s
  unfold onMachine
  cases x s.machine with
  | ok a m => exact .of_eq rfl
  | error e m => exact .of_eq rfl

theorem seals_modify {f : MeteredInterpreter → MeteredInterpreter}
    (h : ∀ s, (f s).checkpoints = s.checkpoints) :
    Moves (Seals env) (modify f : Interp Unit) :=
  .modify fun s => .of_eq (h s)

theorem seals_commitCheckpoint : Moves (Seals env) (commitCheckpoint env) := by
  intro s
  rw [commitCheckpoint_eq]
  cases env.broker.checkpoint (checkpointOf env s) with
  | error e => exact .of_eq rfl
  | ok _ =>
    constructor
    · intro cp hcp
      exact List.mem_append_left _ hcp
    · intro cp hcp
      rcases List.mem_append.mp hcp with h | h
      · exact Or.inl h
      · rw [List.mem_singleton.mp h]
        exact Or.inr (sealed_refreshSemanticDigest env _)

theorem seals_recordCompleted (seq : ℕ) (request : CallRequest) (result : CallResult) :
    Moves (Seals env) (recordCompleted env seq request result) :=
  seals_bind (moves_ofExcept .refl _) (fun _ => seals_modify fun _ => rfl)

theorem seals_executeCallWithRetry (seq : ℕ) (request : CallRequest) (retries attempt : ℕ) :
    Moves (Seals env) (executeCallWithRetry env seq request retries attempt) := by
  induction retries generalizing attempt with
  | zero => exact seals_bind (seals_modify fun _ => rfl) (fun _ => moves_ofExcept .refl _)
  | succ retries ih =>
    refine seals_bind (seals_modify fun _ => rfl) (fun _ => ?_)
    split
    · exact .pure .refl _
    · exact ih _
    · exact .throw .refl _

theorem seals_withInflight {α : Type} {x : Interp α} (hx : Moves (Seals env) x) :
    Moves (Seals env) (withInflight x) := by
  intro s
  have h := hx (s.mapInflight (· + 1))
  unfold withInflight
  cases hr : x (s.mapInflight (· + 1)) with
  | ok a s' =>
    rw [hr] at h
    exact ⟨h.kept, h.added⟩
  | error e s' =>
    rw [hr] at h
    exact ⟨h.kept, h.added⟩

theorem seals_liveCall (seq : ℕ) (request : CallRequest) :
    Moves (Seals env) (liveCall env seq request) := by
  refine seals_bind (moves_ofExcept .refl _) (fun _ => ?_)
  refine seals_bind (seals_withInflight (seals_executeCallWithRetry _ _ _ _)) (fun result => ?_)
  refine seals_bind ?_ (fun _ => .pure .refl _)
  unfold keepSuccessful
  split
  · exact seals_bind (seals_recordCompleted _ _ _) (fun _ => seals_commitCheckpoint)
  · exact .pure .refl _

theorem seals_liveChildJob (request : ChildJobRequest) (callRequest : CallRequest) :
    Moves (Seals env) (liveChildJob env request callRequest) := by
  refine seals_bind (moves_ofExcept .refl _) (fun _ => ?_)
  refine seals_bind (seals_modify fun _ => rfl) (fun _ => ?_)
  refine seals_bind (.get .refl) (fun s => ?_)
  refine seals_bind (moves_ofExcept .refl _) (fun _ => ?_)
  refine seals_bind (fun _ => .of_eq rfl) (fun _ => ?_)
  refine seals_bind (seals_modify fun _ => rfl) (fun _ => ?_)
  refine seals_bind (seals_modify fun _ => rfl) (fun _ => ?_)
  refine seals_bind (moves_ofExcept .refl _) (fun childResult => ?_)
  refine seals_bind (seals_recordCompleted _ _ _) (fun _ => ?_)
  refine seals_bind (seals_modify fun _ => rfl) (fun _ => ?_)
  exact seals_bind seals_commitCheckpoint (fun _ => .pure .refl _)

theorem seals_replayOr {kind : CallKind} {seq : ℕ} {request : CallRequest}
    {live : Interp CallResult} (hlive : Moves (Seals env) live) :
    Moves (Seals env) (replayOr env kind seq request live) := by
  refine seals_bind (.get .refl) (fun s => ?_)
  cases s.completedCalls.get? seq with
  | some completed => exact moves_ofExcept .refl _
  | none => exact hlive

theorem seals_dispatchCall (kind : CallKind) (request : CallRequest) :
    Moves (Seals env) (dispatchCall env kind request) := by
  refine seals_bind (seals_onMachine _) (fun seq => ?_)
  refine seals_bind (seals_replayOr (seals_liveCall _ _)) (fun result => ?_)
  exact seals_bind (seals_onMachine _) (fun _ => .pure .refl _)

theorem seals_executeGroup (reqVals results : List ProgramValue) :
    Moves (Seals env) (executeGroup env reqVals results) := by
  induction reqVals generalizing results with
  | nil => exact .pure .refl _
  | cons reqVal reqVals ih =>
    cases reqVal with
    | string text =>
      refine seals_bind (moves_ofExcept .refl _) (fun request => ?_)
      refine seals_bind (seals_onMachine _) (fun _ => ?_)
      exact seals_bind (seals_dispatchCall _ _) (fun output => ih _)
    | _ => exact .throw .refl _

theorem seals_executeChildJob : Moves (Seals env) (executeChildJob env) := by
  refine seals_bind (seals_onMachine _) (fun configVal => ?_)
  refine seals_bind (seals_onMachine _) (fun opVal => ?_)
  refine seals_bind (moves_ofExcept .refl _) (fun operands => ?_)
  refine seals_bind ?_ (fun output => seals_onMachine _)
  refine seals_bind (seals_onMachine _) (fun seq => ?_)
  refine seals_bind (seals_onMachine _) (fun _ => ?_)
  refine seals_bind (seals_replayOr (seals_liveChildJob _ _)) (fun result => ?_)
  exact seals_bind (seals_onMachine _) (fun _ => .pure .refl _)

theorem seals_executeInstruction (op : IrOp) : Moves (Seals env) (executeInstruction env op) := by
  have after : ∀ {x : Interp Unit} (r : StepResult), Moves (Seals env) x →
      Moves (Seals env) (x >>= fun _ => pure r) :=
    fun r hx => seals_bind hx fun _ => .pure .refl r
  refine executeInstruction_cases op ?_ ?_ ?_ ?_ ?_ ?_ ?_
  · intro x _
    exact after _ (seals_onMachine x)
  · refine after _ (seals_bind (seals_onMachine _) (fun reqVal => ?_))
    split
    · refine seals_bind (moves_ofExcept .refl _) (fun request => ?_)
      refine seals_bind (seals_onMachine _) (fun _ => ?_)
      refine seals_bind (seals_onMachine _) (fun _ => ?_)
      exact seals_bind (seals_dispatchCall _ _) (fun output => seals_onMachine _)
    · exact .throw .refl _
  · refine after _ (seals_bind (seals_onMachine _) (fun reqList => ?_))
    split
    · refine seals_bind (seals_onMachine _) (fun _ => ?_)
      exact seals_bind (seals_executeGroup _ _) (fun results => seals_onMachine _)
    · exact .throw .refl _
  · exact after _ seals_executeChildJob
  · intro _
    exact after _ seals_commitCheckpoint
  · intro result
    exact seals_onMachine _
  · exact after _ (seals_onMachine _)

end Interp

theorem seals_step (env : Env) (s : MeteredInterpreter) : Seals env s (step env s).state := by
  unfold step
  split
  · exact Seals.refl s
  split
  · exact .refl s
  split
  · exact .refl s
  split
  · exact .refl s
  rename_i op _
  have hfetch : Seals env s s.fetched := .of_eq rfl
  have hx := Seals.trans _ _ _ hfetch (seals_executeInstruction op s.fetched)
  cases hr : executeInstruction env op s.fetched with
  | error e s' =>
    rw [hr] at hx
    exact hx
  | ok result s' =>
    rw [hr] at hx
    cases result <;> exact hx

theorem seals_run (env : Env) (s : MeteredInterpreter) : Seals env s (run env s).state := by
  refine run_induction env (P := fun s => Seals env s (run env s).state) ?_ ?_ s
  · intro s result s' h
    have hm := seals_step env s
    rw [h] at hm
    rw [run_of_done h]
    exact hm
  · intro s s' h ih
    have hm := seals_step env s
    rw [h] at hm
    rw [run_step h]
    exact .trans _ _ _ hm ih

/-- A checkpoint that a run writes: one of the interpreter's own, or one of its states
with the child job it waits for, which the broker adds and seals again. -/
inductive Written (env : Env) (s₀ : MeteredInterpreter) : InterpreterCheckpoint → Prop
  | own {cp : InterpreterCheckpoint} (h : cp ∈ (run env s₀).state.checkpoints) : Written env s₀ cp
  | waiting (s : MeteredInterpreter) (pending : PendingChildWait) :
    Written env s₀ (refreshSemanticDigest env
      { checkpointOf env s with pendingChildWait := some pending })

theorem Written.sealed {s₀ : MeteredInterpreter} (h : Written env s₀ cp) (hs₀ : s₀.checkpoints = []) :
    Sealed env cp := by
  cases h with
  | own h =>
    have hseals := (seals_run env s₀).added cp h
    rw [hs₀] at hseals
    exact hseals.resolve_left List.not_mem_nil
  | waiting s pending => exact sealed_refreshSemanticDigest env _

/-! ### Merging the calls of a checkpoint -/

/-- The record that the first of some calls with that sequence makes. -/
def firstCall (calls : List CompletedCall) (seq : ℕ) : Option CompletedCall :=
  calls.find? (fun c => c.sequence = seq)

/-- What is on record at a sequence when a checkpoint's calls have been added. -/
def recordAt (journal : SortedMap ℕ CompletedCall) (calls : List CompletedCall) (seq : ℕ) :
    Option CompletedCall :=
  (journal.get? seq).or (firstCall calls seq)

/-- Every call is the same as what is on record when its turn comes. -/
def Mergeable (journal : SortedMap ℕ CompletedCall) (calls : List CompletedCall) : Prop :=
  ∀ before c after, calls = before ++ c :: after →
    ∀ d ∈ recordAt journal before c.sequence, d.same c = true

/-- The two add the same calls to the journal. -/
def SameNewCalls (journal : SortedMap ℕ CompletedCall) (a b : List CompletedCall) : Prop :=
  ∀ seq, journal.get? seq = none → firstCall a seq = firstCall b seq

theorem recordAt_nil (journal : SortedMap ℕ CompletedCall) (seq : ℕ) :
    recordAt journal [] seq = journal.get? seq := by
  simp [recordAt, firstCall]

theorem recordAt_cons_of_some {journal : SortedMap ℕ CompletedCall} {d : CompletedCall}
    (hd : journal.get? c.sequence = some d) (calls : List CompletedCall) (seq : ℕ) :
    recordAt journal (c :: calls) seq = recordAt journal calls seq := by
  unfold recordAt firstCall
  by_cases hseq : c.sequence = seq
  · subst hseq
    simp [hd]
  · rw [List.find?_cons_of_neg (by simpa using hseq)]

theorem recordAt_cons_of_none {journal : SortedMap ℕ CompletedCall}
    (hc : journal.get? c.sequence = none) (calls : List CompletedCall) (seq : ℕ) :
    recordAt journal (c :: calls) seq = recordAt (journal.insert c.sequence c) calls seq := by
  unfold recordAt firstCall
  rw [SortedMap.get?_insert]
  by_cases hseq : c.sequence = seq
  · subst hseq
    simp [hc]
  · rw [List.find?_cons_of_neg (by simpa using hseq), if_neg (Ne.symm hseq)]

theorem mergeable_cons {journal journal' : SortedMap ℕ CompletedCall} {calls : List CompletedCall}
    (hrecord : ∀ before seq, recordAt journal (c :: before) seq = recordAt journal' before seq) :
    Mergeable journal (c :: calls) ↔
      (∀ d ∈ journal.get? c.sequence, d.same c = true) ∧ Mergeable journal' calls := by
  constructor
  · intro h
    constructor
    · intro d hd
      exact h [] c calls rfl d (by rwa [recordAt_nil])
    · intro before e after hsplit d hd
      refine h (c :: before) e after (by rw [hsplit]; rfl) d ?_
      rwa [hrecord]
  · rintro ⟨hhead, htail⟩ before e after hsplit d hd
    cases before with
    | nil =>
      obtain ⟨rfl, rfl⟩ := List.cons.inj hsplit
      rw [recordAt_nil] at hd
      exact hhead d hd
    | cons x before =>
      obtain ⟨hx, hrest⟩ := List.cons.inj hsplit
      rw [← hx, hrecord] at hd
      exact htail before e after hrest d hd

/-- The calls can be merged if and only if they are mergeable, and then the journal has
what is on record. -/
theorem mergeCompleted_eq_ok (calls : List CompletedCall)
    (journal journal' : SortedMap ℕ CompletedCall) :
    mergeCompleted calls journal = .ok journal' ↔
      Mergeable journal calls ∧ ∀ seq, journal'.get? seq = recordAt journal calls seq := by
  induction calls generalizing journal with
  | nil =>
    simp only [mergeCompleted, Except.ok.injEq, recordAt_nil]
    constructor
    · rintro rfl
      refine ⟨?_, fun _ => rfl⟩
      intro before c after hsplit
      simp at hsplit
    · rintro ⟨-, h⟩
      exact SortedMap.ext_get? fun seq => (h seq).symm
  | cons c calls ih =>
    rw [mergeCompleted]
    cases hd : journal.get? c.sequence with
    | some d =>
      have hrecord := recordAt_cons_of_some hd
      rw [mergeable_cons hrecord, hd]
      simp only [hrecord, Option.mem_some, forall_eq']
      by_cases hsame : d.same c = true
      · rw [if_pos hsame, ih]
        simp [hsame]
      · rw [if_neg hsame]
        simp [hsame]
    | none =>
      have hrecord := recordAt_cons_of_none hd
      rw [mergeable_cons hrecord, hd]
      simp only [hrecord]
      rw [ih]
      simp

/-- Mergeable calls are merged. -/
theorem exists_merged {journal : SortedMap ℕ CompletedCall} {calls : List CompletedCall}
    (h : Mergeable journal calls) : ∃ journal', mergeCompleted calls journal = .ok journal' := by
  induction calls generalizing journal with
  | nil => exact ⟨journal, rfl⟩
  | cons c calls ih =>
    rw [mergeCompleted]
    cases hd : journal.get? c.sequence with
    | some d =>
      obtain ⟨hhead, htail⟩ := (mergeable_cons (recordAt_cons_of_some hd)).mp h
      simpa [hhead d hd] using ih htail
    | none => exact ih ((mergeable_cons (recordAt_cons_of_none hd)).mp h).2

/-! ### Restoring two checkpoints of one digest -/

theorem reenterChild_ok {pending : Option PendingChildWait} {m m' : StackMachine}
    (h : reenterChild pending m = .ok m') (m₁ : StackMachine) :
    ∃ m₁', reenterChild pending m₁ = .ok m₁' := by
  cases pending with
  | none => exact ⟨m₁, rfl⟩
  | some pending =>
    simp only [reenterChild] at h ⊢
    cases hop : pending.operationValue with
    | none =>
      rw [hop] at h
      cases h
    | some operation =>
      cases hcf : pending.configValue with
      | none =>
        rw [hop, hcf] at h
        cases h
      | some config => exact ⟨_, rfl⟩

/-- A restore whose checks go through. -/
theorem restoreCheckpoint_of {journal : SortedMap ℕ CompletedCall} {machine : StackMachine}
    (hd : verifyDigest env cp = .ok ())
    (hj : mergeCompleted cp.completedCalls s.completedCalls = .ok journal)
    (hm : reenterChild cp.pendingChildWait
      (restoredMachine cp journal s.machine) = .ok machine) :
    restoreCheckpoint env cp s = .ok { s with
      machine := machine
      completedCalls := journal
      pendingChildWait := cp.pendingChildWait } := by
  unfold restoreCheckpoint
  simp [hd, hj, hm, bind, Except.bind, pure, Except.pure]

theorem verifyDigest_of_restore {s' : MeteredInterpreter}
    (h : restoreCheckpoint env cp s = .ok s') : verifyDigest env cp = .ok () := by
  unfold restoreCheckpoint at h
  cases hd : verifyDigest env cp with
  | ok u => rfl
  | error e =>
    rw [hd] at h
    cases h

theorem verifyDigest_of_sealed (h : Sealed env cp) :
    verifyDigest env cp = .ok () := by
  unfold Sealed at h
  simp [verifyDigest, ← h]

/-- The digest of a sealed checkpoint is accepted for its own material only. -/
theorem verifyDigest_eq_ok (ha : Sealed env a) (hdigest : b.semanticDigest = a.semanticDigest)
    (hne : a.semanticDigest ≠ "") (hinj : env.host.materialDigest (checkpointMaterial a) =
      env.host.materialDigest (checkpointMaterial b) →
        checkpointMaterial a = checkpointMaterial b)
    (hlegacy : env.host.legacyDigest (checkpointMaterial b) ≠
      env.host.materialDigest (checkpointMaterial a)) :
    verifyDigest env b = .ok () ↔
      checkpointMaterial a = checkpointMaterial b := by
  have hb : b.semanticDigest = env.host.materialDigest (checkpointMaterial a) :=
    hdigest.trans ha
  have hbne : b.semanticDigest ≠ "" := hdigest ▸ hne
  constructor
  · intro h
    by_contra hmat
    have hguard : b.semanticDigest ≠ "" ∧
        b.semanticDigest ≠ env.host.materialDigest (checkpointMaterial b) ∧
        b.semanticDigest ≠ env.host.legacyDigest (checkpointMaterial b) := by
      refine ⟨hbne, ?_, ?_⟩
      · intro heq
        exact hmat (hinj (hb.symm.trans heq))
      · intro heq
        exact hlegacy (heq.symm.trans hb)
    simp [verifyDigest, if_pos hguard] at h
  · intro hmat
    refine verifyDigest_of_sealed ?_
    rw [Sealed, ← hmat]
    exact hb

/-- Checkpoints of one material restore the same machine for the same journal. -/
theorem restoredMachine_eq (h : checkpointMaterial a = checkpointMaterial b)
    (journal : SortedMap ℕ CompletedCall) (m : StackMachine) :
    restoredMachine b journal m = restoredMachine a journal m := by
  simp only [checkpointMaterial, CheckpointMaterial.mk.injEq] at h
  obtain ⟨hpc, hsteps, hiterations, hcalls, hbytes, hgroups, hlocals, hstack, -⟩ := h
  simp [restoredMachine, hpc, hsteps, hiterations, hcalls, hbytes, hgroups, hlocals,
    hstack]

theorem pendingChildWait_eq (h : checkpointMaterial a = checkpointMaterial b) :
    b.pendingChildWait = a.pendingChildWait := by
  have hpending := congrArg CheckpointMaterial.pendingChildWait h
  exact hpending.symm

/-- Merged journals are the same if and only if the same calls are new in them. -/
theorem journals_eq_iff {journal ja jb : SortedMap ℕ CompletedCall} {a b : List CompletedCall}
    (ha : ∀ seq, ja.get? seq = recordAt journal a seq)
    (hb : ∀ seq, jb.get? seq = recordAt journal b seq) :
    jb = ja ↔ SameNewCalls journal a b := by
  constructor
  · rintro rfl seq hseq
    have hboth := (ha seq).symm.trans (hb seq)
    simpa [recordAt, hseq] using hboth
  · intro h
    refine SortedMap.ext_get? fun seq => ?_
    rw [ha, hb]
    unfold recordAt
    cases hseq : journal.get? seq with
    | some c => rfl
    | none => rw [h seq hseq]

/-! ### A restarted program, and two results for one digest -/

/-- The call program with a checkpoint before its call, and any two digests. -/
def digestEnv (digest legacy : CheckpointMaterial → String) : Env :=
  { callEnv with
    program := { callProgram with instructions := .checkpoint :: callProgram.instructions }
    host := { Host.plain with materialDigest := digest, legacyDigest := legacy } }

/-- The record of the call with that result. -/
def completedCall (result : ℤ) : CompletedCall :=
  ⟨0, ⟨"t", .object [], some "pc:0"⟩, ⟨.int result, [], true⟩, none⟩

/-- The program restarted with its call in the journal. -/
def restarted (digest legacy : CheckpointMaterial → String) : MeteredInterpreter :=
  .started (digestEnv digest legacy)
    (SortedMap.empty.insert 0 (completedCall 1)) none

/-- The checkpoint that the restarted program writes first, with a result in it. -/
def firstCheckpoint (digest legacy : CheckpointMaterial → String) (result : ℤ) :
    InterpreterCheckpoint :=
  { checkpointOf (digestEnv digest legacy) (restarted digest legacy).fetched with
    completedCalls := [completedCall result] }

theorem checkpointOf_restarted (digest legacy : CheckpointMaterial → String) :
    checkpointOf (digestEnv digest legacy) (restarted digest legacy).fetched =
      firstCheckpoint digest legacy 1 := by
  have hcalls : (restarted digest legacy).fetched.completedCalls.values = [completedCall 1] := rfl
  unfold firstCheckpoint checkpointOf
  rw [hcalls]
  simp [refreshSemanticDigest]

theorem written_firstCheckpoint (digest legacy : CheckpointMaterial → String) :
    Written (digestEnv digest legacy) (restarted digest legacy)
      (firstCheckpoint digest legacy 1) := by
  have hstep : step (digestEnv digest legacy) (restarted digest legacy) =
      .running (committed (digestEnv digest legacy) (restarted digest legacy).fetched) := rfl
  refine Written.own ?_
  rw [run_step hstep]
  refine (seals_run _ _).kept _ ?_
  rw [← checkpointOf_restarted]
  exact List.mem_append_right _ (List.mem_singleton.mpr rfl)

theorem sealed_firstCheckpoint (digest legacy : CheckpointMaterial → String) (result : ℤ) :
    Sealed (digestEnv digest legacy) (firstCheckpoint digest legacy result) := by
  have hone : Sealed (digestEnv digest legacy) (firstCheckpoint digest legacy 1) :=
    (written_firstCheckpoint digest legacy).sealed rfl
  exact hone

/-- Restored by a fresh interpreter, the checkpoint brings its result into the journal. -/
theorem restore_firstCheckpoint (digest legacy : CheckpointMaterial → String) (result : ℤ) :
    ∃ s', restoreCheckpoint (digestEnv digest legacy) (firstCheckpoint digest legacy result)
        (.started (digestEnv digest legacy) .empty none) = .ok s' ∧
      s'.completedCalls.get? 0 = some (completedCall result) := by
  have hd := (verifyDigest_of_sealed (sealed_firstCheckpoint digest legacy result))
  exact ⟨_, restoreCheckpoint_of hd rfl rfl, rfl⟩

/-- What a digest binds: for a checkpoint of a run, which has been restored, every other
checkpoint with its digest is refused or restores the same state if and only if it has
other material, calls that conflict, or the same calls where the journal has none. -/
theorem restore_bound_iff {s₀ s sa : MeteredInterpreter} {a b : InterpreterCheckpoint}
    (hs₀ : s₀.checkpoints = []) (ha : Written env s₀ a)
    (hdigest : b.semanticDigest = a.semanticDigest) (hne : a.semanticDigest ≠ "")
    (hinj : env.host.materialDigest (Interp.checkpointMaterial a) =
      env.host.materialDigest (Interp.checkpointMaterial b) →
        Interp.checkpointMaterial a = Interp.checkpointMaterial b)
    (hlegacy : env.host.legacyDigest (Interp.checkpointMaterial b) ≠
      env.host.materialDigest (Interp.checkpointMaterial a))
    (hsa : Interp.restoreCheckpoint env a s = .ok sa) :
    (∀ sb, Interp.restoreCheckpoint env b s = .ok sb → sb = sa) ↔
      (Interp.checkpointMaterial a = Interp.checkpointMaterial b →
        Mergeable s.completedCalls b.completedCalls →
          SameNewCalls s.completedCalls a.completedCalls b.completedCalls) := by
  have hverify := verifyDigest_eq_ok (ha.sealed hs₀) hdigest hne hinj hlegacy
  obtain ⟨ja, ma, hja, hma, rfl⟩ := Interp.restoreCheckpoint_ok hsa
  have hrecorda := ((mergeCompleted_eq_ok _ _ _).mp hja).2
  constructor
  · intro h hmat hmergeable
    obtain ⟨jb, hjb⟩ := exists_merged hmergeable
    have hrecordb := ((mergeCompleted_eq_ok _ _ _).mp hjb).2
    obtain ⟨mb, hmb⟩ := reenterChild_ok hma (Interp.restoredMachine b jb s.machine)
    rw [← pendingChildWait_eq hmat] at hmb
    have hsame := h _ (restoreCheckpoint_of (hverify.mpr hmat) hjb hmb)
    have hjournals : jb = ja := congrArg MeteredInterpreter.completedCalls hsame
    exact (journals_eq_iff hrecorda hrecordb).mp hjournals
  · intro h sb hsb
    have hmat := hverify.mp (verifyDigest_of_restore hsb)
    obtain ⟨jb, mb, hjb, hmb, rfl⟩ := Interp.restoreCheckpoint_ok hsb
    obtain ⟨hmergeable, hrecordb⟩ := (mergeCompleted_eq_ok _ _ _).mp hjb
    obtain rfl := (journals_eq_iff hrecorda hrecordb).mpr (h hmat hmergeable)
    rw [pendingChildWait_eq hmat, restoredMachine_eq hmat, hma] at hmb
    cases hmb
    rw [pendingChildWait_eq hmat]

/-- The checkpoint under another number restores the same state. -/
theorem restore_bound_renumbered :
    ∃ sa, Interp.restoreCheckpoint (digestEnv (fun _ => "sha256:0") (fun _ => "sha256:1"))
        (firstCheckpoint (fun _ => "sha256:0") (fun _ => "sha256:1") 1)
        (.started (digestEnv (fun _ => "sha256:0") (fun _ => "sha256:1")) .empty none) = .ok sa ∧
      ∀ sb, Interp.restoreCheckpoint (digestEnv (fun _ => "sha256:0") (fun _ => "sha256:1"))
        { firstCheckpoint (fun _ => "sha256:0") (fun _ => "sha256:1") 1 with
          checkpointSequence := 7 }
        (.started (digestEnv (fun _ => "sha256:0") (fun _ => "sha256:1")) .empty none) = .ok sb →
          sb = sa := by
  obtain ⟨sa, hsa, -⟩ := restore_firstCheckpoint (fun _ => "sha256:0") (fun _ => "sha256:1") 1
  have hfresh : (restarted (fun _ => "sha256:0") (fun _ => "sha256:1")).checkpoints = [] := rfl
  refine ⟨sa, hsa, ?_⟩
  exact (restore_bound_iff hfresh (written_firstCheckpoint _ _) rfl (by decide) (fun _ => rfl)
    (by decide) hsa).mpr fun _ _ _ _ => rfl

/-- Restoring is bound by the digest of what a run has written. -/
def RestoreBound (env : Env) : Prop :=
  ∀ s₀ s sa sb : MeteredInterpreter, ∀ a b : InterpreterCheckpoint,
    s₀.checkpoints = [] → Written env s₀ a → b.semanticDigest = a.semanticDigest →
      a.semanticDigest ≠ "" → restoreCheckpoint env a s = .ok sa →
        restoreCheckpoint env b s = .ok sb → sb = sa

/-- No digest of the material makes it so: two results of one call have the same. -/
theorem no_digest_binds_results :
    ¬∃ digest legacy : CheckpointMaterial → String,
      (∀ material, digest material ≠ "") ∧ RestoreBound (digestEnv digest legacy) := by
  rintro ⟨digest, legacy, hne, hbound⟩
  obtain ⟨sa, hsa, hra⟩ := restore_firstCheckpoint digest legacy 1
  obtain ⟨sb, hsb, hrb⟩ := restore_firstCheckpoint digest legacy 2
  have hsame : sb = sa :=
    hbound (restarted digest legacy) _ sa sb (firstCheckpoint digest legacy 1)
      (firstCheckpoint digest legacy 2) rfl (written_firstCheckpoint digest legacy) rfl
      (hne _) hsa hsb
  rw [hsame, hra] at hrb
  simp [completedCall] at hrb

end Codegg.ToolProgram
