import Mathlib.Data.String.Basic
import Codegg.Library.CountMap
import Codegg.Library.SortedMap
import Codegg.Scheduler.Config

/-!
# The admission controller

All dimensions of a request are reserved together or not at all. The counters are
machine integers: additions wrap around at their width, as they do in an
optimised build, and releases saturate. Every call holds the lock for its whole
decision, so a run is a sequence of calls.
-/
namespace Codegg.Scheduler

open Codegg.Library

/-- Addition of 32-bit counters. -/
def wrappingAdd32 (a b : ℕ) : ℕ := (a + b) % 2 ^ 32

/-- Addition of 64-bit counters. -/
def wrappingAdd64 (a b : ℕ) : ℕ := (a + b) % 2 ^ 64

/-- Controller-side cost of one remote reservation. -/
def remoteTransferSlots : ℕ := 1

/-- Maximum bytes in a quota key. -/
def maxQuotaKeyBytes : ℕ := 256

/-- Maximum weighted slots of a single quota request. -/
def maxQuotaSlots : ℕ := 64

inductive ResourceClass
  | build
  | repositoryBuild
  deriving DecidableEq, Repr

/-- Stable namespace of the quota keys of a class. -/
def ResourceClass.namespace_ : ResourceClass → String
  | build => "build"
  | repositoryBuild => "repository-build"

/-- A weighted slot request under a `<namespace>:<scope>` key. -/
structure KeyedQuotaRequest where
  key : String
  slots : ℕ
  deriving DecidableEq, Repr

namespace KeyedQuotaRequest

/-- The key up to its first colon. -/
def namespace_ (q : KeyedQuotaRequest) : Option String :=
  if ':' ∈ q.key.toList then some (String.ofList (q.key.toList.takeWhile (fun c => c ≠ ':')))
  else none

def isValid (q : KeyedQuotaRequest) : Bool :=
  decide (q.key ≠ "") && decide (q.key.utf8ByteSize ≤ maxQuotaKeyBytes) &&
    (match q.namespace_ with
      | some ns => decide (ns ≠ "")
      | none => false) &&
    decide (1 ≤ q.slots) && decide (q.slots ≤ maxQuotaSlots)

end KeyedQuotaRequest

/-- What a permit reserves. With a `remoteNode` the local dimensions describe the
node and are not charged to the controller. -/
structure PermitDimensions where
  cpuWeight : ℕ
  memoryMbHint : ℕ
  processSlots : ℕ
  ioWeight : ℕ
  networkSlots : ℕ
  exclusivityKeys : List String
  keyedQuotas : List KeyedQuotaRequest
  remoteNode : Option String
  deriving DecidableEq, Repr

/-- Strip every leading copy of `pat`; `fuel` bounds the number of copies. -/
def trimStartMatches (pat : List Char) : ℕ → List Char → List Char
  | 0, s => s
  | fuel + 1, s =>
    if pat.isPrefixOf s then trimStartMatches pat fuel (s.drop pat.length) else s

/-- The bare name of a conflicting key; other keys are not reserved. -/
def bareKey (key : String) : Option String :=
  let pat := "exclusive:".toList
  if pat.isPrefixOf key.toList then
    some (String.ofList (trimStartMatches pat key.toList.length key.toList))
  else none

/-- The bare conflicting keys of a request, in order and with repetitions. -/
def PermitDimensions.bareKeys (dims : PermitDimensions) : List String :=
  dims.exclusivityKeys.filterMap bareKey

inductive BlockReason
  | insufficientProcessSlots (requested available : ℕ)
  | insufficientCpuWeight (requested available : ℕ)
  | insufficientMemory (requested available : ℕ)
  | insufficientIoWeight (requested available : ℕ)
  | insufficientNetworkSlots (requested available : ℕ)
  | keyContended (key : String)
  | quotaContended (key : String) (requested available : ℕ)
  | queueFull
  | remoteNodeCapacity (nodeId : String) (requested available : ℕ)
  | remoteTransferCapacity (requested available : ℕ)
  deriving DecidableEq, Repr

inductive UnschedulableReason
  | processSlotsExceedBudget (requested budget : ℕ)
  | cpuWeightExceedsBudget (requested budget : ℕ)
  | memoryExceedsBudget (requested budget : ℕ)
  | ioWeightExceedsBudget (requested budget : ℕ)
  | networkSlotsExceedBudget (requested budget : ℕ)
  | quotaExceedsLimit (key : String) (requested limit : ℕ)
  | quotaRequestOverflow (key : String)
  | unknownQuotaNamespace (namespace_ : String)
  | remoteNodeCapacityExceedsBudget (nodeId : String) (requested budget : ℕ)
  | remoteTransferCapacityExceedsBudget (requested budget : ℕ)
  deriving DecidableEq, Repr

/-- A request that is not admitted, now or ever. -/
inductive Refusal
  | blocked (reason : BlockReason)
  | impossible (why : UnschedulableReason)
  deriving DecidableEq, Repr

/-- The state behind the lock. -/
structure InnerState where
  usedProcess : ℕ
  usedCpu : ℕ
  usedMemory : ℕ
  usedIo : ℕ
  usedNetwork : ℕ
  heldKeys : CountMap String
  heldQuotas : CountMap String
  usedRemoteTransfers : ℕ
  usedRemote : CountMap String
  rejected : ℕ
  impossible : ℕ

def InnerState.default : InnerState :=
  ⟨0, 0, 0, 0, 0, fun _ => none, fun _ => none, 0, fun _ => none, 0, 0⟩

/-- A guard that releases its dimensions when it is dropped. -/
structure ResourcePermitGuard where
  dimensions : PermitDimensions
  deriving DecidableEq, Repr

inductive AdmissionDecision
  | admitted (guard : ResourcePermitGuard)
  | temporarilyBlocked (reason : BlockReason)
  | impossible (why : UnschedulableReason)
  deriving DecidableEq, Repr

namespace AdmissionController

variable (cfg : ResolvedSchedulerConfig)

/-- The configured limit of a quota scope; `none` for an unknown namespace. -/
def quotaLimit (q : KeyedQuotaRequest) : Option UInt32 :=
  match q.namespace_ with
  | some ns =>
    if ns = ResourceClass.build.namespace_ then some cfg.quota.maxConcurrentBuildsPerWorkspace
    else if ns = ResourceClass.repositoryBuild.namespace_ then
      cfg.quota.maxConcurrentBuildsPerRepository
    else none
  | none => none

/-- Requests that exceed a budget even on an idle controller. -/
def checkImpossible (dims : PermitDimensions) : Option UnschedulableReason :=
  let budget := cfg.resources
  match dims.remoteNode with
  | some nodeId =>
    if cfg.remoteNodeCapacity nodeId = some 0 then
      some (.remoteNodeCapacityExceedsBudget nodeId 1 0)
    else if budget.maxRemoteTransfers < remoteTransferSlots then
      some (.remoteTransferCapacityExceedsBudget remoteTransferSlots budget.maxRemoteTransfers)
    else none
  | none =>
    if budget.maxProcessSlots < dims.processSlots then
      some (.processSlotsExceedBudget dims.processSlots budget.maxProcessSlots)
    else if budget.maxCpuWeight < dims.cpuWeight then
      some (.cpuWeightExceedsBudget dims.cpuWeight budget.maxCpuWeight)
    else if budget.maxMemoryMbHint < dims.memoryMbHint then
      some (.memoryExceedsBudget dims.memoryMbHint budget.maxMemoryMbHint)
    else if budget.maxIoWeight < dims.ioWeight then
      some (.ioWeightExceedsBudget dims.ioWeight budget.maxIoWeight)
    else if budget.maxNetworkSlots < dims.networkSlots then
      some (.networkSlotsExceedBudget dims.networkSlots budget.maxNetworkSlots)
    else none

/-- The first conflicting key that is held. -/
def checkKeys (s : InnerState) (dims : PermitDimensions) : Option BlockReason :=
  (dims.bareKeys.find? (fun bare => decide (0 < s.heldKeys.count bare))).map .keyContended

def checkRemote (s : InnerState) (dims : PermitDimensions) (nodeId : String) :
    Option BlockReason :=
  let nodeLimit := cfg.remoteNodeLimit nodeId
  let used := s.usedRemote.count nodeId
  let maxTransfers := cfg.resources.maxRemoteTransfers
  if nodeLimit < wrappingAdd32 used 1 then
    some (.remoteNodeCapacity nodeId 1 (nodeLimit - used))
  else if maxTransfers < wrappingAdd32 s.usedRemoteTransfers remoteTransferSlots then
    some (.remoteTransferCapacity remoteTransferSlots (maxTransfers - s.usedRemoteTransfers))
  else checkKeys s dims

/-- The local dimensions, in the order in which they are checked. -/
def checkDimensions (s : InnerState) (dims : PermitDimensions) : Option BlockReason :=
  let budget := cfg.resources
  if budget.maxProcessSlots < wrappingAdd32 s.usedProcess dims.processSlots then
    some (.insufficientProcessSlots dims.processSlots
      ((budget.maxProcessSlots - s.usedProcess) % 2 ^ 16))
  else if budget.maxCpuWeight < wrappingAdd32 s.usedCpu dims.cpuWeight then
    some (.insufficientCpuWeight dims.cpuWeight (budget.maxCpuWeight - s.usedCpu))
  else if budget.maxMemoryMbHint < wrappingAdd64 s.usedMemory dims.memoryMbHint then
    some (.insufficientMemory dims.memoryMbHint (budget.maxMemoryMbHint - s.usedMemory))
  else if budget.maxIoWeight < wrappingAdd32 s.usedIo dims.ioWeight then
    some (.insufficientIoWeight dims.ioWeight (budget.maxIoWeight - s.usedIo))
  else if budget.maxNetworkSlots < wrappingAdd32 s.usedNetwork dims.networkSlots then
    some (.insufficientNetworkSlots dims.networkSlots
      ((budget.maxNetworkSlots - s.usedNetwork) % 2 ^ 16))
  else none

/-- Aggregate the quota requests by key, so that a repeated key is checked once. -/
def requestedQuotas : List KeyedQuotaRequest → SortedMap String ℕ →
    Except Refusal (SortedMap String ℕ)
  | [], requested => .ok requested
  | quota :: quotas, requested =>
    if quota.isValid = false then
      .error (.impossible (.unknownQuotaNamespace (quota.namespace_.getD "")))
    else if 2 ^ 32 ≤ (requested.get? quota.key).getD 0 + quota.slots then
      .error (.impossible (.quotaRequestOverflow quota.key))
    else
      requestedQuotas quotas
        (requested.upsert quota.key (fun total => total.getD 0 + quota.slots))

/-- The check of one aggregated scope. -/
def checkQuota (s : InnerState) (key : String) (slots : ℕ) : Option Refusal :=
  let quota : KeyedQuotaRequest := ⟨key, slots⟩
  match quotaLimit cfg quota with
  | none => some (.impossible (.unknownQuotaNamespace (quota.namespace_.getD "")))
  | some limit =>
    let available := limit.toNat - s.heldQuotas.count key
    if limit.toNat < slots then some (.impossible (.quotaExceedsLimit key slots limit.toNat))
    else if available < slots then some (.blocked (.quotaContended key slots available))
    else none

/-- All checks of a local request; the aggregated quotas on success. -/
def checkLocal (s : InnerState) (dims : PermitDimensions) :
    Except Refusal (SortedMap String ℕ) :=
  match checkDimensions cfg s dims with
  | some reason => .error (.blocked reason)
  | none =>
    match requestedQuotas dims.keyedQuotas .empty with
    | .error refusal => .error refusal
    | .ok requested =>
      match requested.toList.findSome? (fun p => checkQuota cfg s p.1 p.2) with
      | some refusal => .error refusal
      | none =>
        match checkKeys s dims with
        | some reason => .error (.blocked reason)
        | none => .ok requested

/-- The keys of a request, each counted once per mention. -/
def keyCharges (dims : PermitDimensions) : List (String × ℕ) :=
  dims.bareKeys.map (fun bare => (bare, 1))

def reserveRemote (s : InnerState) (dims : PermitDimensions) (nodeId : String) : InnerState :=
  { s with
    usedRemote := s.usedRemote.add 32 nodeId 1
    usedRemoteTransfers := wrappingAdd32 s.usedRemoteTransfers remoteTransferSlots
    heldKeys := s.heldKeys.addAll 32 (keyCharges dims) }

def reserveLocal (s : InnerState) (dims : PermitDimensions) (requested : SortedMap String ℕ) :
    InnerState :=
  { s with
    usedProcess := wrappingAdd32 s.usedProcess dims.processSlots
    usedCpu := wrappingAdd32 s.usedCpu dims.cpuWeight
    usedMemory := wrappingAdd64 s.usedMemory dims.memoryMbHint
    usedIo := wrappingAdd32 s.usedIo dims.ioWeight
    usedNetwork := wrappingAdd32 s.usedNetwork dims.networkSlots
    heldKeys := s.heldKeys.addAll 32 (keyCharges dims)
    heldQuotas := s.heldQuotas.addAll 32 requested.toList }

/-- Decide one request. -/
def tryAdmit (s : InnerState) (dims : PermitDimensions) : AdmissionDecision × InnerState :=
  match checkImpossible cfg dims with
  | some why => (.impossible why, { s with impossible := s.impossible + 1 })
  | none =>
    match dims.remoteNode with
    | some nodeId =>
      match checkRemote cfg s dims nodeId with
      | some reason => (.temporarilyBlocked reason, { s with rejected := s.rejected + 1 })
      | none => (.admitted ⟨dims⟩, reserveRemote s dims nodeId)
    | none =>
      match checkLocal cfg s dims with
      | .error (.impossible why) =>
        (.impossible why, { s with impossible := s.impossible + 1 })
      | .error (.blocked reason) =>
        (.temporarilyBlocked reason, { s with rejected := s.rejected + 1 })
      | .ok requested => (.admitted ⟨dims⟩, reserveLocal s dims requested)

/-- Give back what a guard holds. -/
def release (s : InnerState) (dims : PermitDimensions) : InnerState :=
  match dims.remoteNode with
  | some nodeId =>
    { s with
      usedRemote := s.usedRemote.sub nodeId 1
      usedRemoteTransfers := s.usedRemoteTransfers - remoteTransferSlots
      heldKeys := s.heldKeys.subAll (keyCharges dims) }
  | none =>
    { s with
      usedProcess := s.usedProcess - dims.processSlots
      usedCpu := s.usedCpu - dims.cpuWeight
      usedMemory := s.usedMemory - dims.memoryMbHint
      usedIo := s.usedIo - dims.ioWeight
      usedNetwork := s.usedNetwork - dims.networkSlots
      heldKeys := s.heldKeys.subAll (keyCharges dims)
      heldQuotas := s.heldQuotas.subAll (dims.keyedQuotas.map (fun q => (q.key, q.slots))) }

end AdmissionController

end Codegg.Scheduler
