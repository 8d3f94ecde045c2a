import Codegg.ToolProgram.Effects

/-!
# What a call does, as a function

The answers of the broker do not depend on the state of the interpreter. So the
outcome of a live call and the calls it issues are functions of its sequence
number and its request; the state only receives the trace, the journal record
and the checkpoint.
-/
namespace Codegg.ToolProgram

open Codegg.Library

namespace MeteredInterpreter

/-- The state after issuing some calls. -/
def traced (calls : List IssuedCall) (s : MeteredInterpreter) : MeteredInterpreter :=
  { s with issued := s.issued ++ calls }

/-- The state after journaling a call. -/
def recorded (seq : ℕ) (request : CallRequest) (result : CallResult) (s : MeteredInterpreter) :
    MeteredInterpreter :=
  { s with completedCalls :=
      s.completedCalls.insert seq ⟨seq, request, result, s.replayFingerprint⟩ }

theorem traced_traced (calls calls' : List IssuedCall) (s : MeteredInterpreter) :
    (s.traced calls).traced calls' = s.traced (calls ++ calls') := by
  simp only [traced, List.append_assoc]

end MeteredInterpreter

variable {seq : ℕ} {request : CallRequest} {call : IssuedCall}

namespace Interp

variable (env : Env)

/-- The outcome of a call with its retries, and the attempts made. -/
def retryAnswer (seq : ℕ) (request : CallRequest) :
    (retries attempt : ℕ) → Except InterpreterError CallResult × List IssuedCall
  | 0, attempt => (attemptOutcome env seq attempt request, [.tool seq attempt request])
  | retries + 1, attempt =>
    match attemptOutcome env seq attempt request with
    | .error (.brokerError _) =>
      let rest := retryAnswer seq request retries (attempt + 1)
      (rest.1, .tool seq attempt request :: rest.2)
    | outcome => (outcome, [.tool seq attempt request])

/-- The outcome of a live tool call up to its journal record, and its attempts. -/
def callAnswer (seq : ℕ) (request : CallRequest) :
    Except InterpreterError CallResult × List IssuedCall :=
  match env.broker.callReserved seq request with
  | .error e => (.error e, [])
  | .ok _ =>
    let answer := retryAnswer env seq request env.limits.maxRetries 0
    match answer.1 with
    | .error e => (.error e, answer.2)
    | .ok result =>
      if result.success then
        match env.broker.callCompleted seq request result with
        | .error e => (.error e, answer.2)
        | .ok _ => (.ok result, answer.2)
      else (.ok result, answer.2)

/-- Journal a call and commit a checkpoint. -/
def journalCall (seq : ℕ) (request : CallRequest) (result : CallResult) : Interp CallResult :=
  fun s => (commitCheckpoint env >>= fun _ => pure result) (s.recorded seq request result)

/-- End a live call with its answer: a successful one is journaled. -/
def settle (seq : ℕ) (request : CallRequest) :
    Except InterpreterError CallResult → Interp CallResult
  | .error e => throw e
  | .ok result => if result.success then journalCall env seq request result else pure result

/-- The outcome of a live child job up to its journal record. -/
def childAnswer (request : ChildJobRequest) (callRequest : CallRequest) :
    Except InterpreterError CallResult :=
  match env.broker.callReserved request.sequence callRequest with
  | .error e => .error e
  | .ok _ =>
    match env.broker.submitChildJob request with
    | .error e => .error e
    | .ok childResult =>
      let result : CallResult := ⟨.toolResult childResult.value, childResult.artifacts, true⟩
      match env.broker.callCompleted request.sequence callRequest result with
      | .error e => .error e
      | .ok _ => .ok result

/-- The calls issued by a live child job. -/
def childTrace (request : ChildJobRequest) (callRequest : CallRequest) : List IssuedCall :=
  match env.broker.callReserved request.sequence callRequest with
  | .error _ => []
  | .ok _ => [.child request]

variable {env}

theorem mem_retryAnswer {retries attempt : ℕ}
    (h : call ∈ (retryAnswer env seq request retries attempt).2) :
    call.sequence = seq := by
  induction retries generalizing attempt with
  | zero =>
    rw [List.mem_singleton.mp h]
    rfl
  | succ retries ih =>
    unfold retryAnswer at h
    split at h
    · rcases List.mem_cons.mp h with rfl | hm
      · rfl
      · exact ih hm
    · rw [List.mem_singleton.mp h]
      rfl

theorem mem_callAnswer (h : call ∈ (callAnswer env seq request).2) : call.sequence = seq := by
  unfold callAnswer at h
  split at h
  · cases h
  · dsimp only at h
    split at h
    · exact mem_retryAnswer h
    · split at h
      · split at h <;> exact mem_retryAnswer h
      · exact mem_retryAnswer h

theorem mem_childTrace {request : ChildJobRequest} {callRequest : CallRequest}
    (h : call ∈ childTrace env request callRequest) :
    call.sequence = request.sequence := by
  unfold childTrace at h
  split at h
  · cases h
  · rw [List.mem_singleton.mp h]
    rfl

theorem executeCallWithRetry_eq (seq : ℕ) (request : CallRequest) (retries attempt : ℕ)
    (s : MeteredInterpreter) :
    executeCallWithRetry env seq request retries attempt s =
      ofExcept (retryAnswer env seq request retries attempt).1
        (s.traced (retryAnswer env seq request retries attempt).2) := by
  induction retries generalizing attempt s with
  | zero => rfl
  | succ retries ih =>
    unfold executeCallWithRetry retryAnswer
    rw [bind_of_ok (show issue (.tool seq attempt request) s =
      .ok () (s.traced [.tool seq attempt request]) from rfl)]
    cases h : attemptOutcome env seq attempt request with
    | ok result => rfl
    | error e =>
      cases e with
      | brokerError msg =>
        dsimp only
        rw [ih, MeteredInterpreter.traced_traced]
        rfl
      | _ => rfl

theorem withInflight_retry (seq : ℕ) (request : CallRequest) (retries : ℕ)
    (s : MeteredInterpreter) :
    withInflight (executeCallWithRetry env seq request retries 0) s =
      ofExcept (retryAnswer env seq request retries 0).1
        (s.traced (retryAnswer env seq request retries 0).2) := by
  unfold withInflight
  rw [executeCallWithRetry_eq]
  cases (retryAnswer env seq request retries 0).1 with
  | ok result => rfl
  | error e => rfl

/-- A live tool call: its answer, then the journal and the checkpoint if it was
successful. -/
theorem liveCall_eq (seq : ℕ) (request : CallRequest) (s : MeteredInterpreter) :
    liveCall env seq request s =
      settle env seq request (callAnswer env seq request).1
        (s.traced (callAnswer env seq request).2) := by
  unfold liveCall callAnswer
  cases hres : env.broker.callReserved seq request with
  | error e =>
    have : s.traced [] = s := by simp [MeteredInterpreter.traced]
    simp only [this]
    rfl
  | ok _ =>
    rw [bind_of_ok (show ofExcept (.ok _) s = .ok _ s from rfl)]
    dsimp only
    have hretry := @withInflight_retry env seq request env.limits.maxRetries s
    cases hr : (retryAnswer env seq request env.limits.maxRetries 0).1 with
    | error e =>
      rw [hr] at hretry
      rw [bind_of_error hretry]
      rfl
    | ok result =>
      rw [hr] at hretry
      rw [bind_of_ok hretry]
      unfold keepSuccessful
      by_cases hsucc : result.success = true
      · simp only [if_pos hsucc]
        unfold recordCompleted
        cases hc : env.broker.callCompleted seq request result with
        | error e => rfl
        | ok _ =>
          simp only [settle, if_pos hsucc]
          rfl
      · simp only [settle, if_neg hsucc]
        rfl

/-- A live child job of a program that waits for none. -/
theorem liveChildJob_eq (request : ChildJobRequest) (callRequest : CallRequest)
    (s : MeteredInterpreter) (hp : s.pendingChildWait = none) :
    ∃ n, liveChildJob env request callRequest s =
      settle env request.sequence callRequest (childAnswer env request callRequest)
        { s.traced (childTrace env request callRequest) with nextCheckpointSequence := n } := by
  unfold liveChildJob childAnswer childTrace
  simp only [Broker.submit_eq]
  cases hres : env.broker.callReserved request.sequence callRequest with
  | error e =>
    refine ⟨s.nextCheckpointSequence, ?_⟩
    have : s.traced [] = s := by simp [MeteredInterpreter.traced]
    simp only [this]
    rfl
  | ok _ =>
    refine ⟨(s.nextCheckpointSequence + 1) % 2 ^ 32, ?_⟩
    have hpend : checkPending env s.pendingChildWait request = .ok () := by
      rw [hp]
      rfl
    show (ofExcept (checkPending env s.pendingChildWait request) >>= _)
      (s.mapInflight (· + 1)) = _
    rw [hpend]
    cases hsub : env.broker.submitChildJob request with
    | error e => rfl
    | ok childResult =>
      dsimp only
      cases hc : env.broker.callCompleted request.sequence callRequest
          ⟨.toolResult childResult.value, childResult.artifacts, true⟩ with
      | error e =>
        show (recordCompleted env request.sequence callRequest _ >>= _) _ = _
        unfold recordCompleted
        rw [hc]
        rfl
      | ok _ =>
        have hstate : ∀ u : MeteredInterpreter, u.pendingChildWait = none →
            { u with pendingChildWait := none } = u := by
          rintro ⟨⟩ h
          cases h
          rfl
        let result : CallResult := ⟨.toolResult childResult.value, childResult.artifacts, true⟩
        let u : MeteredInterpreter := { s.traced [.child request] with
          nextCheckpointSequence := (s.nextCheckpointSequence + 1) % 2 ^ 32 }
        have hrecord : recordCompleted env request.sequence callRequest result u =
            .ok () (u.recorded request.sequence callRequest result) := by
          unfold recordCompleted
          rw [hc]
          rfl
        show (recordCompleted env request.sequence callRequest result >>= _) u = _
        rw [bind_of_ok hrecord]
        exact congrArg (commitCheckpoint env >>= fun _ => pure result)
          (hstate (u.recorded request.sequence callRequest result) hp)

/-- A live call of sequence `seq`, described by its answer and the calls it issues. -/
structure LiveCall (env : Env) (seq : ℕ) (request : CallRequest) (live : Interp CallResult) where
  answer : Except InterpreterError CallResult
  calls : List IssuedCall
  sequence_eq : ∀ call ∈ calls, call.sequence = seq
  run_eq : ∀ s, s.pendingChildWait = none → ∃ n, live s =
    settle env seq request answer { s.traced calls with nextCheckpointSequence := n }

def LiveCall.tool (env : Env) (seq : ℕ) (request : CallRequest) :
    LiveCall env seq request (liveCall env seq request) where
  answer := (callAnswer env seq request).1
  calls := (callAnswer env seq request).2
  sequence_eq := fun _ h => mem_callAnswer h
  run_eq := fun s _ => ⟨s.nextCheckpointSequence, liveCall_eq seq request s⟩

def LiveCall.child (env : Env) (request : ChildJobRequest) (callRequest : CallRequest) :
    LiveCall env request.sequence callRequest (liveChildJob env request callRequest) where
  answer := childAnswer env request callRequest
  calls := childTrace env request callRequest
  sequence_eq := fun _ h => mem_childTrace h
  run_eq := fun s hp => liveChildJob_eq request callRequest s hp

/-- The second half of a call: make it, count it and return its output. -/
def completeCall (env : Env) (kind : CallKind) (seq : ℕ) (request : CallRequest)
    (live : Interp CallResult) : Interp ProgramValue := do
  let result ← replayOr env kind seq request live
  onMachine Exec.countCall
  return result.output

theorem dispatchCall_eq (kind : CallKind) (request : CallRequest) (s : MeteredInterpreter) :
    dispatchCall env kind request s =
      completeCall env kind s.machine.nextCallSeq (withCallId s.machine.nextCallSeq request)
        (liveCall env s.machine.nextCallSeq (withCallId s.machine.nextCallSeq request)) s.taken :=
  rfl

theorem dispatchChildJob_eq (op : ChildJobOp) (config : ChildJobConfig)
    (s : MeteredInterpreter) :
    dispatchChildJob env op config s =
      if s.machine.budget.calls ≥ env.limits.maxDynamicCalls then
        .error (.budgetExceeded ("call count " ++ toString s.machine.budget.calls ++
          " exceeds max " ++ toString env.limits.maxDynamicCalls)) s.taken
      else completeCall env .childJob s.machine.nextCallSeq
        (childCallRequest env ⟨s.machine.nextCallSeq, op, config⟩)
        (liveChildJob env ⟨s.machine.nextCallSeq, op, config⟩
          (childCallRequest env ⟨s.machine.nextCallSeq, op, config⟩)) s.taken := by
  unfold dispatchChildJob
  rw [bind_of_ok (show onMachine Exec.takeCallSeq s = .ok s.machine.nextCallSeq s.taken from rfl)]
  have hcheck := @checkCallBudget_eq env s.taken
  by_cases h : s.taken.machine.budget.calls ≥ env.limits.maxDynamicCalls
  · rw [if_pos h] at hcheck
    rw [bind_of_error hcheck, if_pos (show s.machine.budget.calls ≥ _ from h)]
    rfl
  · rw [if_neg h] at hcheck
    rw [bind_of_ok hcheck, if_neg (show ¬ s.machine.budget.calls ≥ _ from h)]
    rfl

/-- A checkpoint hook that accepts lets every journaled call through. -/
theorem journalCall_of_accepts (hcp : ∀ cp, env.broker.checkpoint cp = .ok ()) (seq : ℕ)
    (request : CallRequest) (result : CallResult) (s : MeteredInterpreter) :
    journalCall env seq request result s =
      .ok result (committed env (s.recorded seq request result)) := by
  have hc : commitCheckpoint env (s.recorded seq request result) =
      .ok () (committed env (s.recorded seq request result)) := by
    rw [commitCheckpoint_eq, hcp]
  exact bind_of_ok hc

/-- The second half of a call, once its result is known. -/
theorem completeCall_of_ok {kind : CallKind} {live : Interp CallResult} {s s' : MeteredInterpreter}
    {result : CallResult} (h : replayOr env kind seq request live s = .ok result s') :
    completeCall env kind seq request live s = .ok result.output s'.counted :=
  bind_of_ok h

theorem completeCall_of_error {kind : CallKind} {live : Interp CallResult}
    {s s' : MeteredInterpreter} {e : InterpreterError}
    (h : replayOr env kind seq request live s = .error e s') :
    completeCall env kind seq request live s = .error e s' :=
  bind_of_error h

end Interp

end Codegg.ToolProgram
