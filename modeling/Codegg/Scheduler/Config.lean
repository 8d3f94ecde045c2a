import Mathlib.Tactic

/-!
# Resolved scheduler configuration

The part of the resolved configuration that the fair queue and the admission
controller read. Options are already filled in; a map from node to ceiling is a
partial function, as a hash map is only ever queried by key. Numbers are natural
numbers, except where the code relies on the width of the machine integer.
-/
namespace Codegg.Scheduler

/-- Local resource budget and the separate bound on remote transfers. -/
structure ResourceBudget where
  maxProcessSlots : ℕ
  maxCpuWeight : ℕ
  maxMemoryMbHint : ℕ
  maxIoWeight : ℕ
  maxNetworkSlots : ℕ
  maxRemoteTransfers : ℕ
  deriving DecidableEq, Repr

structure QueueCaps where
  maxTotal : ℕ
  maxPerWorkspace : ℕ
  deriving DecidableEq, Repr

structure FairnessWeights where
  maxHighPriorityBurst : UInt32
  agingSecs : ℕ
  deriving DecidableEq, Repr

/-- Count of weighted slots per quota scope. -/
structure QuotaPolicy where
  maxConcurrentBuildsPerWorkspace : UInt32
  maxConcurrentBuildsPerRepository : Option UInt32
  deriving DecidableEq, Repr

structure ResolvedSchedulerConfig where
  resources : ResourceBudget
  queue : QueueCaps
  fairness : FairnessWeights
  quota : QuotaPolicy
  remoteNodeCapacity : String → Option ℕ

namespace ResolvedSchedulerConfig

/-- The shipped defaults. -/
def default : ResolvedSchedulerConfig where
  resources := ⟨4, 8, 8192, 8, 4, 16⟩
  queue := ⟨256, 64⟩
  fairness := ⟨8, 300⟩
  quota := ⟨1, none⟩
  remoteNodeCapacity := fun _ => none

/-- The concurrency ceiling for one remote node. -/
def remoteNodeLimit (cfg : ResolvedSchedulerConfig) (nodeId : String) : ℕ :=
  max ((cfg.remoteNodeCapacity nodeId).getD cfg.resources.maxProcessSlots) 1

end ResolvedSchedulerConfig

end Codegg.Scheduler
