import Codegg.Scheduler.Admission

/-!
# Conservation of the admission counters

The counters of the controller are written by two walks over the dimensions, one
that reserves and one that releases. Here the controller runs beside the list of
live guards, and its state is compared with what the guards hold.

The comparison needs the additions of the admission checks to be exact. The code
adds before it compares, so a sum that does not fit its integer type slips below
the budget; `SumsFit` says that this does not happen in one call.
-/
namespace Codegg.Scheduler.AdmissionController

open Codegg.Library CountMap

/-! ### What a guard holds -/

/-- A local dimension is charged by local guards only. -/
def localCharge (f : PermitDimensions → ℕ) (d : PermitDimensions) : ℕ :=
  match d.remoteNode with
  | none => f d
  | some _ => 0

/-- The transfers charged by a guard. -/
def transferCharge (d : PermitDimensions) : ℕ :=
  match d.remoteNode with
  | none => 0
  | some _ => remoteTransferSlots

/-- The executions charged to a node. -/
def nodeCharge (nodeId : String) (d : PermitDimensions) : ℕ :=
  if d.remoteNode = some nodeId then 1 else 0

/-- How often a guard holds a bare key. -/
def keyCharge (key : String) (d : PermitDimensions) : ℕ := d.bareKeys.count key

/-- The slots of a quota scope that a request asks for. -/
def quotaCharge (key : String) (d : PermitDimensions) : ℕ :=
  weight (d.keyedQuotas.map (fun q => (q.key, q.slots))) key

/-- The sum of a charge over the live guards. -/
def total (f : PermitDimensions → ℕ) (live : List PermitDimensions) : ℕ := (live.map f).sum

@[simp] theorem total_nil (f : PermitDimensions → ℕ) : total f [] = 0 := rfl

@[simp] theorem total_cons (f : PermitDimensions → ℕ) (d : PermitDimensions)
    (live : List PermitDimensions) : total f (d :: live) = f d + total f live := rfl

attribute [local simp] localCharge transferCharge nodeCharge

variable {live live' : List PermitDimensions} {s : InnerState} {cfg : ResolvedSchedulerConfig}
  {dims : PermitDimensions}

theorem total_perm (f : PermitDimensions → ℕ) (h : live.Perm live') :
    total f live = total f live' := (h.map f).sum_eq

/-- The usage counters are the sums over the live guards. -/
structure Conserves (s : InnerState) (live : List PermitDimensions) : Prop where
  process : s.usedProcess = total (localCharge (·.processSlots)) live
  cpu : s.usedCpu = total (localCharge (·.cpuWeight)) live
  memory : s.usedMemory = total (localCharge (·.memoryMbHint)) live
  io : s.usedIo = total (localCharge (·.ioWeight)) live
  network : s.usedNetwork = total (localCharge (·.networkSlots)) live
  transfers : s.usedRemoteTransfers = total transferCharge live
  remote : s.usedRemote.Counts (fun n => total (nodeCharge n) live)
  keys : s.heldKeys.Counts (fun k => total (keyCharge k) live)
  quotas : s.heldQuotas.Counts (fun k => total (localCharge (quotaCharge k)) live)

/-- The guards together stay within every budget and limit. -/
structure Within (cfg : ResolvedSchedulerConfig) (live : List PermitDimensions) : Prop where
  process : total (localCharge (·.processSlots)) live ≤ cfg.resources.maxProcessSlots
  cpu : total (localCharge (·.cpuWeight)) live ≤ cfg.resources.maxCpuWeight
  memory : total (localCharge (·.memoryMbHint)) live ≤ cfg.resources.maxMemoryMbHint
  io : total (localCharge (·.ioWeight)) live ≤ cfg.resources.maxIoWeight
  network : total (localCharge (·.networkSlots)) live ≤ cfg.resources.maxNetworkSlots
  transfers : total transferCharge live ≤ cfg.resources.maxRemoteTransfers
  remote : ∀ n, total (nodeCharge n) live ≤ cfg.remoteNodeLimit n
  quotas : ∀ k, total (localCharge (quotaCharge k)) live ≠ 0 →
    ∃ limit, quotaLimit cfg ⟨k, total (localCharge (quotaCharge k)) live⟩ = some limit ∧
      total (localCharge (quotaCharge k)) live ≤ limit.toNat

/-- No bare key is held by two of the guards. -/
def Exclusive (live : List PermitDimensions) : Prop :=
  live.Pairwise (fun d d' => ∀ k ∈ d.bareKeys, k ∉ d'.bareKeys)

theorem Conserves.perm (h : Conserves s live) (hp : live.Perm live') : Conserves s live' := by
  refine ⟨?_, ?_, ?_, ?_, ?_, ?_, ?_, ?_, ?_⟩
  · rw [h.process, total_perm _ hp]
  · rw [h.cpu, total_perm _ hp]
  · rw [h.memory, total_perm _ hp]
  · rw [h.io, total_perm _ hp]
  · rw [h.network, total_perm _ hp]
  · rw [h.transfers, total_perm _ hp]
  · have hr := h.remote
    simpa only [total_perm _ hp] using hr
  · have hk := h.keys
    simpa only [total_perm _ hp] using hk
  · have hq := h.quotas
    simpa only [total_perm _ hp] using hq

theorem Exclusive.perm (h : Exclusive live) (hp : live.Perm live') : Exclusive live' := by
  refine hp.pairwise h ?_
  intro d d' hd k hk' hk
  exact hd k hk hk'

theorem weight_keyCharges (d : PermitDimensions) (k : String) :
    weight (keyCharges d) k = keyCharge k d := by
  unfold keyCharges keyCharge
  induction d.bareKeys with
  | nil => rfl
  | cons b bs ih =>
    rw [List.map_cons, weight_cons, ih, List.count_cons]
    by_cases hb : b = k
    · simp [Nat.add_comm]
    · simp [hb]

/-! ### Release -/

/-- Dropping a guard takes its charges out of every counter. -/
theorem Conserves.release {d : PermitDimensions} (h : Conserves s (d :: live)) :
    Conserves (release s d) live := by
  have hkeys : (s.heldKeys.subAll (keyCharges d)).Counts (fun k => total (keyCharge k) live) := by
    have hk := h.keys.subAll (keyCharges d)
    simpa only [weight_keyCharges, total_cons, Nat.add_sub_cancel_left] using hk
  have hremote := h.remote
  have hquotas := h.quotas
  unfold AdmissionController.release
  cases hd : d.remoteNode with
  | none =>
    simp only [total_cons, nodeCharge, hd, reduceCtorEq, if_false, Nat.zero_add] at hremote
    refine ⟨?_, ?_, ?_, ?_, ?_, ?_, hremote, hkeys, ?_⟩
    · simp [h.process, hd]
    · simp [h.cpu, hd]
    · simp [h.memory, hd]
    · simp [h.io, hd]
    · simp [h.network, hd]
    · simp [h.transfers, hd]
    · have hq := hquotas.subAll (d.keyedQuotas.map (fun q => (q.key, q.slots)))
      simpa [hd, quotaCharge] using hq
  | some nodeId =>
    have hr := hremote.sub nodeId 1
    simp only [total_cons, localCharge, hd, Nat.zero_add] at hquotas
    refine ⟨?_, ?_, ?_, ?_, ?_, ?_, ?_, hkeys, hquotas⟩
    · simp [h.process, hd]
    · simp [h.cpu, hd]
    · simp [h.memory, hd]
    · simp [h.io, hd]
    · simp [h.network, hd]
    · simp [h.transfers, hd]
    · intro n
      have hn := hr n
      simp only [total_cons, nodeCharge, hd] at hn
      by_cases he : nodeId = n
      · simpa [he] using hn
      · simpa [he] using hn

theorem Within.perm (h : Within cfg live) (hp : live.Perm live') : Within cfg live' := by
  obtain ⟨h1, h2, h3, h4, h5, h6, h7, h8⟩ := h
  simp only [total_perm _ hp] at h1 h2 h3 h4 h5 h6 h7 h8
  exact ⟨h1, h2, h3, h4, h5, h6, h7, h8⟩

/-- Fewer guards stay within the budgets. -/
theorem Within.tail {cfg : ResolvedSchedulerConfig} {d : PermitDimensions}
    {live : List PermitDimensions} (h : Within cfg (d :: live)) : Within cfg live := by
  have hle : ∀ f, total f live ≤ total f (d :: live) := by
    intro f
    rw [total_cons]
    omega
  refine ⟨(hle _).trans h.process, (hle _).trans h.cpu, (hle _).trans h.memory,
    (hle _).trans h.io, (hle _).trans h.network, (hle _).trans h.transfers,
    fun n => (hle _).trans (h.remote n), ?_⟩
  intro k hk
  have hpos := hle (localCharge (quotaCharge k))
  obtain ⟨limit, hl, hb⟩ := h.quotas k (by omega)
  exact ⟨limit, hl, hpos.trans hb⟩

/-! ### Admission -/

/-- The sums that a sequence of checks evaluates: the first one fits its width, and
while it is within its limit so do the following ones. -/
def FirstSumsFit : List (ℕ × ℕ × ℕ × ℕ) → Prop
  | [] => True
  | (width, used, requested, limit) :: rest =>
    used + requested < 2 ^ width ∧ (used + requested ≤ limit → FirstSumsFit rest)

instance decidableFirstSumsFit : ∀ sums, Decidable (FirstSumsFit sums)
  | [] => isTrue trivial
  | (width, used, requested, limit) :: rest =>
    have := decidableFirstSumsFit rest
    inferInstanceAs (Decidable (used + requested < 2 ^ width ∧
      (used + requested ≤ limit → FirstSumsFit rest)))

/-- The sums of a call in the order of its checks: width, counter, request, limit. -/
def checkedSums (cfg : ResolvedSchedulerConfig) (s : InnerState) (dims : PermitDimensions) :
    List (ℕ × ℕ × ℕ × ℕ) :=
  match dims.remoteNode with
  | some nodeId =>
    [(32, s.usedRemote.count nodeId, 1, cfg.remoteNodeLimit nodeId),
      (32, s.usedRemoteTransfers, remoteTransferSlots, cfg.resources.maxRemoteTransfers)]
  | none =>
    [(32, s.usedProcess, dims.processSlots, cfg.resources.maxProcessSlots),
      (32, s.usedCpu, dims.cpuWeight, cfg.resources.maxCpuWeight),
      (64, s.usedMemory, dims.memoryMbHint, cfg.resources.maxMemoryMbHint),
      (32, s.usedIo, dims.ioWeight, cfg.resources.maxIoWeight),
      (32, s.usedNetwork, dims.networkSlots, cfg.resources.maxNetworkSlots)]

/-- No sum that the call evaluates overflows its integer type. -/
def SumsFit (cfg : ResolvedSchedulerConfig) (s : InnerState) (dims : PermitDimensions) : Prop :=
  checkImpossible cfg dims = none → FirstSumsFit (checkedSums cfg s dims) ∧
    (checkKeys s dims = none → ∀ k ∈ dims.bareKeys, dims.bareKeys.count k < 2 ^ 32)

instance (cfg : ResolvedSchedulerConfig) (s : InnerState) (dims : PermitDimensions) :
    Decidable (SumsFit cfg s dims) :=
  inferInstanceAs (Decidable (_ → _ ∧ (_ → _)))

/-- One dimension: a sum that fits and passes its check is the exact new counter. -/
theorem checked_sum {width used requested limit : ℕ} (hfit : used + requested < 2 ^ width)
    (hpass : ¬ limit < (used + requested) % 2 ^ width) :
    (used + requested) % 2 ^ width = requested + used ∧ used + requested ≤ limit := by
  rw [Nat.mod_eq_of_lt hfit] at hpass ⊢
  omega

/-- A key that passes the check is held by no live guard. -/
theorem Conserves.key_free (h : Conserves s live) (hfree : checkKeys s dims = none) {k : String}
    (hk : k ∈ dims.bareKeys) : total (keyCharge k) live = 0 := by
  unfold checkKeys at hfree
  rw [Option.map_eq_none_iff, List.find?_eq_none] at hfree
  have hcount := hfree k hk
  rw [h.keys.count_eq] at hcount
  simpa using hcount

theorem Exclusive.cons {s : InnerState} {live : List PermitDimensions} (h : Conserves s live)
    (he : Exclusive live) {dims : PermitDimensions} (hfree : checkKeys s dims = none) :
    Exclusive (dims :: live) := by
  refine List.pairwise_cons.mpr ⟨?_, he⟩
  intro d hd k hk hkd
  have hzero := h.key_free hfree hk
  have hpos : 0 < keyCharge k d := List.count_pos_iff.mpr hkd
  have hle : keyCharge k d ≤ total (keyCharge k) live :=
    List.single_le_sum (by simp) _ (List.mem_map_of_mem hd)
  omega

/-- Reserving the keys of a request whose keys are free. -/
theorem Conserves.reserve_keys (h : Conserves s live) (hfree : checkKeys s dims = none)
    (hfit : ∀ k ∈ dims.bareKeys, dims.bareKeys.count k < 2 ^ 32) :
    (s.heldKeys.addAll 32 (keyCharges dims)).Counts
      (fun k => total (keyCharge k) (dims :: live)) := by
  have hmem : ∀ p ∈ keyCharges dims, p.1 ∈ dims.bareKeys ∧ p.2 = 1 := by
    intro p hp
    obtain ⟨b, hb, rfl⟩ := List.mem_map.mp hp
    exact ⟨hb, rfl⟩
  have hadd := h.keys.addAll 32 (l := keyCharges dims)
    (fun p hp => by rw [(hmem p hp).2]; exact Nat.one_pos) (fun p hp => by
      rw [h.key_free hfree (hmem p hp).1, weight_keyCharges, Nat.zero_add]
      exact hfit p.1 (hmem p hp).1)
  simpa only [weight_keyCharges, total_cons, Nat.add_comm] using hadd

/-- The aggregation of the quota requests loses nothing. -/
theorem requestedQuotas_spec {quotas : List KeyedQuotaRequest} {m m' : SortedMap String ℕ}
    (h : requestedQuotas quotas m = .ok m') (hpos : ∀ p ∈ m.toList, 0 < p.2) :
    (∀ p ∈ m'.toList, 0 < p.2) ∧ ∀ k, weight m'.toList k =
      weight m.toList k + weight (quotas.map (fun q => (q.key, q.slots))) k := by
  induction quotas generalizing m with
  | nil =>
    obtain rfl : m = m' := by simpa [requestedQuotas] using h
    exact ⟨hpos, fun k => rfl⟩
  | cons q quotas ih =>
    simp only [requestedQuotas] at h
    split_ifs at h with hv ho
    have hslots : 1 ≤ q.slots := by
      rw [Bool.not_eq_false] at hv
      simp only [KeyedQuotaRequest.isValid, Bool.and_eq_true, decide_eq_true_eq] at hv
      exact hv.1.2
    have hperm := m.perm_upsert q.key (fun total => total.getD 0 + q.slots)
    have hstep := ih h (by
      intro p hp
      rcases List.mem_cons.mp (hperm.mem_iff.mp hp) with rfl | hr
      · omega
      · exact hpos p ((m.mem_rest_iff q.key p).mp hr).1)
    refine ⟨hstep.1, ?_⟩
    intro k
    rw [hstep.2 k, weight_perm hperm, weight_perm (m.perm_rest q.key),
      weight_cons, weight_append, List.map_cons, weight_cons]
    cases hg : m.get? q.key with
    | none =>
      simp only [Option.getD_none, Option.toList_none, List.map_nil, weight_nil]
      split_ifs <;> omega
    | some v =>
      simp only [Option.getD_some, Option.toList_some, List.map_cons, List.map_nil,
        weight_cons, weight_nil]
      split_ifs <;> omega

/-- A binding of a map is the weight of its key. -/
theorem weight_toList {m : SortedMap String ℕ} {p : String × ℕ} (hp : p ∈ m.toList) :
    weight m.toList p.1 = p.2 := by
  have hget := (m.mem_toList_iff p.1 p.2).mp hp
  have hrest : weight (m.rest p.1) p.1 = 0 := by
    refine weight_eq_zero ?_
    intro hm
    obtain ⟨r, hr, hk⟩ := List.mem_map.mp hm
    exact ((m.mem_rest_iff p.1 r).mp hr).2 hk
  rw [weight_perm (m.perm_rest p.1), weight_append, hget, hrest]
  simp

/-- What the checks of an admitted local request establish. -/
theorem checkLocal_eq_ok {requested : SortedMap String ℕ}
    (h : checkLocal cfg s dims = .ok requested) :
    checkDimensions cfg s dims = none ∧ requestedQuotas dims.keyedQuotas .empty = .ok requested ∧
      (∀ p ∈ requested.toList, checkQuota cfg s p.1 p.2 = none) ∧ checkKeys s dims = none := by
  unfold checkLocal at h
  split at h
  · simp at h
  · next hdim =>
    split at h
    · simp at h
    · next r hr =>
      split at h
      · simp at h
      · next hq =>
        split at h
        · simp at h
        · next hk =>
          obtain rfl : r = requested := by simpa using h
          exact ⟨hdim, hr, List.findSome?_eq_none_iff.mp hq, hk⟩

/-- An aggregated scope that passes its check fits under its limit. -/
theorem checkQuota_eq_none {key : String} {slots : ℕ} (hpos : 0 < slots)
    (h : checkQuota cfg s key slots = none) :
    ∃ limit, quotaLimit cfg ⟨key, slots⟩ = some limit ∧
      s.heldQuotas.count key + slots ≤ limit.toNat := by
  simp only [checkQuota] at h
  split at h
  · simp at h
  · next limit hl =>
    split_ifs at h with h1 h2
    exact ⟨limit, hl, by omega⟩

/-- An admitted local request: its sums are exact and within the budgets. -/
theorem checkDimensions_eq_none (hlocal : dims.remoteNode = none)
    (h : checkDimensions cfg s dims = none) (hfit : FirstSumsFit (checkedSums cfg s dims)) :
    (wrappingAdd32 s.usedProcess dims.processSlots = dims.processSlots + s.usedProcess ∧
      s.usedProcess + dims.processSlots ≤ cfg.resources.maxProcessSlots) ∧
    (wrappingAdd32 s.usedCpu dims.cpuWeight = dims.cpuWeight + s.usedCpu ∧
      s.usedCpu + dims.cpuWeight ≤ cfg.resources.maxCpuWeight) ∧
    (wrappingAdd64 s.usedMemory dims.memoryMbHint = dims.memoryMbHint + s.usedMemory ∧
      s.usedMemory + dims.memoryMbHint ≤ cfg.resources.maxMemoryMbHint) ∧
    (wrappingAdd32 s.usedIo dims.ioWeight = dims.ioWeight + s.usedIo ∧
      s.usedIo + dims.ioWeight ≤ cfg.resources.maxIoWeight) ∧
    (wrappingAdd32 s.usedNetwork dims.networkSlots = dims.networkSlots + s.usedNetwork ∧
      s.usedNetwork + dims.networkSlots ≤ cfg.resources.maxNetworkSlots) := by
  simp only [checkedSums, hlocal] at hfit
  unfold checkDimensions at h
  simp only at h
  split_ifs at h with h1 h2 h3 h4 h5
  obtain ⟨hf1, hfit⟩ := hfit
  have hp := checked_sum hf1 h1
  obtain ⟨hf2, hfit⟩ := hfit hp.2
  have hc := checked_sum hf2 h2
  obtain ⟨hf3, hfit⟩ := hfit hc.2
  have hm := checked_sum hf3 h3
  obtain ⟨hf4, hfit⟩ := hfit hm.2
  have hi := checked_sum hf4 h4
  obtain ⟨hf5, -⟩ := hfit hi.2
  exact ⟨hp, hc, hm, hi, checked_sum hf5 h5⟩

/-- Reserving an admitted local request adds exactly its charges. -/
theorem Conserves.reserveLocal (h : Conserves s live) (hw : Within cfg live)
    (hlocal : dims.remoteNode = none) {requested : SortedMap String ℕ}
    (hok : checkLocal cfg s dims = .ok requested) (hfit : FirstSumsFit (checkedSums cfg s dims))
    (hkeys : ∀ k ∈ dims.bareKeys, dims.bareKeys.count k < 2 ^ 32) :
    Conserves (reserveLocal s dims requested) (dims :: live) ∧ Within cfg (dims :: live) := by
  obtain ⟨hdim, hreq, hquota, hfree⟩ := checkLocal_eq_ok hok
  obtain ⟨hpos, hweight⟩ := requestedQuotas_spec hreq (by simp)
  obtain ⟨hp, hc, hm, hi, hn⟩ := checkDimensions_eq_none hlocal hdim hfit
  have hcharge : ∀ f, localCharge f dims = f dims := fun f => by simp [hlocal]
  have hq : ∀ k, weight requested.toList k = quotaCharge k dims := by
    intro k
    rw [hweight k]
    exact Nat.zero_add _
  -- the scopes of the request are under their limits, so their counters cannot wrap
  have hlimit : ∀ p ∈ requested.toList, ∃ limit, quotaLimit cfg ⟨p.1, p.2⟩ = some limit ∧
      total (localCharge (quotaCharge p.1)) live + p.2 ≤ limit.toNat := by
    intro p hp'
    obtain ⟨limit, hl, hb⟩ := checkQuota_eq_none (hpos p hp') (hquota p hp')
    rw [h.quotas.count_eq] at hb
    exact ⟨limit, hl, hb⟩
  have hquotas : (s.heldQuotas.addAll 32 requested.toList).Counts
      (fun k => total (localCharge (quotaCharge k)) (dims :: live)) := by
    have hadd := h.quotas.addAll 32 hpos (fun p hp' => by
      obtain ⟨limit, -, hb⟩ := hlimit p hp'
      have hlt := limit.toNat_lt
      rw [weight_toList hp']
      omega)
    simpa only [hq, total_cons, hcharge, Nat.add_comm] using hadd
  constructor
  · refine ⟨?_, ?_, ?_, ?_, ?_, ?_, ?_, h.reserve_keys hfree hkeys, hquotas⟩
    · rw [total_cons, hcharge, ← h.process]
      exact hp.1
    · rw [total_cons, hcharge, ← h.cpu]
      exact hc.1
    · rw [total_cons, hcharge, ← h.memory]
      exact hm.1
    · rw [total_cons, hcharge, ← h.io]
      exact hi.1
    · rw [total_cons, hcharge, ← h.network]
      exact hn.1
    · simp [AdmissionController.reserveLocal, h.transfers, hlocal]
    · simpa [AdmissionController.reserveLocal, hlocal] using h.remote
  · refine ⟨?_, ?_, ?_, ?_, ?_, ?_, ?_, ?_⟩
    · rw [total_cons, hcharge, ← h.process]
      omega
    · rw [total_cons, hcharge, ← h.cpu]
      omega
    · rw [total_cons, hcharge, ← h.memory]
      omega
    · rw [total_cons, hcharge, ← h.io]
      omega
    · rw [total_cons, hcharge, ← h.network]
      omega
    · simpa [hlocal] using hw.transfers
    · intro n
      simpa [hlocal] using hw.remote n
    · intro k hk
      rw [total_cons, hcharge, ← hq] at hk ⊢
      by_cases hmem : k ∈ requested.toList.map Prod.fst
      · obtain ⟨p, hp', rfl⟩ := List.mem_map.mp hmem
        obtain ⟨limit, hl, hb⟩ := hlimit p hp'
        rw [weight_toList hp']
        exact ⟨limit, hl, by omega⟩
      · rw [weight_eq_zero hmem, Nat.zero_add] at hk ⊢
        exact hw.quotas k hk

/-- Reserving an admitted remote request adds exactly its charges. -/
theorem Conserves.reserveRemote (h : Conserves s live) (hw : Within cfg live) {nodeId : String}
    (hremote : dims.remoteNode = some nodeId) (hok : checkRemote cfg s dims nodeId = none)
    (hfit : FirstSumsFit (checkedSums cfg s dims))
    (hkeys : ∀ k ∈ dims.bareKeys, dims.bareKeys.count k < 2 ^ 32) :
    Conserves (reserveRemote s dims nodeId) (dims :: live) ∧ Within cfg (dims :: live) := by
  simp only [checkedSums, hremote] at hfit
  simp only [checkRemote] at hok
  split_ifs at hok with h1 h2
  obtain ⟨hf1, hfit⟩ := hfit
  have hn := checked_sum hf1 h1
  obtain ⟨hf2, -⟩ := hfit hn.2
  have ht := checked_sum hf2 h2
  have hcharge : ∀ f, localCharge f dims = 0 := fun f => by simp [hremote]
  have hnode : ∀ n, nodeCharge n dims = if nodeId = n then 1 else 0 := fun n => by
    simp [hremote]
  have htransfer : transferCharge dims = remoteTransferSlots := by simp [hremote]
  rw [h.remote.count_eq] at hn hf1
  constructor
  · refine ⟨?_, ?_, ?_, ?_, ?_, ?_, ?_, h.reserve_keys hok hkeys, ?_⟩
    · rw [total_cons, hcharge, ← h.process, Nat.zero_add]
      rfl
    · rw [total_cons, hcharge, ← h.cpu, Nat.zero_add]
      rfl
    · rw [total_cons, hcharge, ← h.memory, Nat.zero_add]
      rfl
    · rw [total_cons, hcharge, ← h.io, Nat.zero_add]
      rfl
    · rw [total_cons, hcharge, ← h.network, Nat.zero_add]
      rfl
    · rw [total_cons, htransfer, ← h.transfers]
      exact ht.1
    · have hadd := h.remote.add 32 Nat.one_pos hf1
      simpa only [AdmissionController.reserveRemote, total_cons, hnode, Nat.add_comm] using hadd
    · simpa only [AdmissionController.reserveRemote, total_cons, hcharge, Nat.zero_add]
        using h.quotas
  · refine ⟨?_, ?_, ?_, ?_, ?_, ?_, ?_, ?_⟩
    · rw [total_cons, hcharge, Nat.zero_add]
      exact hw.process
    · rw [total_cons, hcharge, Nat.zero_add]
      exact hw.cpu
    · rw [total_cons, hcharge, Nat.zero_add]
      exact hw.memory
    · rw [total_cons, hcharge, Nat.zero_add]
      exact hw.io
    · rw [total_cons, hcharge, Nat.zero_add]
      exact hw.network
    · rw [total_cons, htransfer, ← h.transfers, Nat.add_comm]
      exact ht.2
    · intro n
      rw [total_cons, hnode]
      split_ifs with he
      · rw [← he, Nat.add_comm]
        exact hn.2
      · rw [Nat.zero_add]
        exact hw.remote n
    · intro k
      simp only [total_cons, hcharge, Nat.zero_add]
      exact hw.quotas k

/-- Nothing but the statistics differs. -/
def SameUsage (s s' : InnerState) : Prop :=
  s' = { s with rejected := s'.rejected, impossible := s'.impossible }

/-- A call either passes all checks and reserves, or changes no usage counter. -/
theorem tryAdmit_cases (cfg : ResolvedSchedulerConfig) (s : InnerState)
    (dims : PermitDimensions) :
    (checkImpossible cfg dims = none ∧ (tryAdmit cfg s dims).1 = .admitted ⟨dims⟩ ∧
      ((∃ nodeId, dims.remoteNode = some nodeId ∧ checkRemote cfg s dims nodeId = none ∧
          (tryAdmit cfg s dims).2 = reserveRemote s dims nodeId) ∨
        ∃ requested, dims.remoteNode = none ∧ checkLocal cfg s dims = .ok requested ∧
          (tryAdmit cfg s dims).2 = reserveLocal s dims requested)) ∨
    ((∀ guard, (tryAdmit cfg s dims).1 ≠ .admitted guard) ∧
      SameUsage s (tryAdmit cfg s dims).2) := by
  unfold tryAdmit
  cases himp : checkImpossible cfg dims with
  | some why => exact .inr ⟨by simp, rfl⟩
  | none =>
    cases hnode : dims.remoteNode with
    | some nodeId =>
      simp only
      cases hr : checkRemote cfg s dims nodeId with
      | some reason => exact .inr ⟨by simp, rfl⟩
      | none => exact .inl ⟨trivial, rfl, .inl ⟨nodeId, rfl, hr, rfl⟩⟩
    | none =>
      simp only
      cases hl : checkLocal cfg s dims with
      | ok requested => exact .inl ⟨trivial, rfl, .inr ⟨requested, trivial, rfl, rfl⟩⟩
      | error refusal => cases refusal <;> exact .inr ⟨by simp, rfl⟩

theorem Conserves.sameUsage {s' : InnerState} (h : Conserves s live) (hs : SameUsage s s') :
    Conserves s' live := by
  rw [hs]
  exact ⟨h.process, h.cpu, h.memory, h.io, h.network, h.transfers, h.remote, h.keys, h.quotas⟩

/-! ### Whole runs -/

inductive AdmissionOp
  | tryAdmit (dims : PermitDimensions)
  | drop (index : ℕ)

/-- The controller and the dimensions of its live guards. -/
structure System where
  inner : InnerState
  live : List PermitDimensions

def System.init : System := ⟨.default, []⟩

/-- One call: an admission hands out a guard, a drop releases one. -/
def System.step (cfg : ResolvedSchedulerConfig) (sys : System) : AdmissionOp → System
  | .tryAdmit dims =>
    match tryAdmit cfg sys.inner dims with
    | (.admitted guard, inner) => ⟨inner, guard.dimensions :: sys.live⟩
    | (_, inner) => ⟨inner, sys.live⟩
  | .drop index =>
    match sys.live[index]? with
    | some dims => ⟨release sys.inner dims, sys.live.eraseIdx index⟩
    | none => sys

def System.run (cfg : ResolvedSchedulerConfig) (sys : System) (ops : List AdmissionOp) : System :=
  ops.foldl (System.step cfg) sys

/-- The sums of a call fit. -/
def OpFits (cfg : ResolvedSchedulerConfig) (sys : System) : AdmissionOp → Prop
  | .tryAdmit dims => SumsFit cfg sys.inner dims
  | .drop _ => True

/-- The sums of every call of a run fit. -/
def RunFits (cfg : ResolvedSchedulerConfig) : System → List AdmissionOp → Prop
  | _, [] => True
  | sys, op :: ops => OpFits cfg sys op ∧ RunFits cfg (sys.step cfg op) ops

/-- The controller agrees with its guards. -/
structure System.Sound (cfg : ResolvedSchedulerConfig) (sys : System) : Prop where
  conserves : Conserves sys.inner sys.live
  within : Within cfg sys.live
  exclusive : Exclusive sys.live

theorem System.sound_init (cfg : ResolvedSchedulerConfig) : System.init.Sound cfg where
  conserves := ⟨rfl, rfl, rfl, rfl, rfl, rfl, fun _ => rfl, fun _ => rfl, fun _ => rfl⟩
  within := ⟨Nat.zero_le _, Nat.zero_le _, Nat.zero_le _, Nat.zero_le _, Nat.zero_le _,
    Nat.zero_le _, fun _ => Nat.zero_le _, fun _ h => absurd rfl h⟩
  exclusive := List.Pairwise.nil

variable {sys : System}

theorem System.Sound.tryAdmit (h : sys.Sound cfg) (hfit : SumsFit cfg sys.inner dims) :
    (sys.step cfg (.tryAdmit dims)).Sound cfg := by
  rcases tryAdmit_cases cfg sys.inner dims with ⟨himp, hdec, hcase⟩ | ⟨hdec, hsame⟩
  · obtain ⟨hsums, hkeys⟩ := hfit himp
    have hstep : sys.step cfg (.tryAdmit dims) =
        ⟨(AdmissionController.tryAdmit cfg sys.inner dims).2, dims :: sys.live⟩ := by
      simp only [System.step]
      rw [← Prod.mk.eta (p := AdmissionController.tryAdmit cfg sys.inner dims), hdec]
    rw [hstep]
    rcases hcase with ⟨nodeId, hremote, hok, heq⟩ | ⟨requested, hlocal, hok, heq⟩
    · have hfree : checkKeys sys.inner dims = none := by
        simp only [checkRemote] at hok
        split_ifs at hok
        exact hok
      obtain ⟨hc, hw⟩ := h.conserves.reserveRemote h.within hremote hok hsums (hkeys hfree)
      rw [heq]
      exact ⟨hc, hw, h.exclusive.cons h.conserves hfree⟩
    · have hfree := (checkLocal_eq_ok hok).2.2.2
      obtain ⟨hc, hw⟩ := h.conserves.reserveLocal h.within hlocal hok hsums (hkeys hfree)
      rw [heq]
      exact ⟨hc, hw, h.exclusive.cons h.conserves hfree⟩
  · have hstep : sys.step cfg (.tryAdmit dims) =
        ⟨(AdmissionController.tryAdmit cfg sys.inner dims).2, sys.live⟩ := by
      rcases hd : AdmissionController.tryAdmit cfg sys.inner dims with ⟨decision, inner⟩
      rw [hd] at hdec
      cases decision with
      | admitted guard => exact absurd rfl (hdec guard)
      | temporarilyBlocked reason => simp [System.step, hd]
      | impossible why => simp [System.step, hd]
    rw [hstep]
    exact ⟨h.conserves.sameUsage hsame, h.within, h.exclusive⟩

theorem System.Sound.drop (h : sys.Sound cfg) (index : ℕ) :
    (sys.step cfg (.drop index)).Sound cfg := by
  simp only [System.step]
  cases hg : sys.live[index]? with
  | none => exact h
  | some d =>
    obtain ⟨hlt, hd⟩ := List.getElem?_eq_some_iff.mp hg
    have hp : sys.live.Perm (d :: sys.live.eraseIdx index) := by
      rw [← hd]
      exact (List.getElem_cons_eraseIdx_perm hlt).symm
    exact ⟨(h.conserves.perm hp).release, (h.within.perm hp).tail,
      (List.pairwise_cons.mp (h.exclusive.perm hp)).2⟩

theorem System.Sound.run (h : sys.Sound cfg) {ops : List AdmissionOp} (hfit : RunFits cfg sys ops) :
    (sys.run cfg ops).Sound cfg := by
  induction ops generalizing sys with
  | nil => exact h
  | cons op ops ih =>
    obtain ⟨hop, hrest⟩ := hfit
    cases op with
    | tryAdmit dims => exact ih (h.tryAdmit hop) hrest
    | drop index => exact ih (h.drop index) hrest

/-- In every run whose sums fit: the counters are the sums over the live guards and
within the budgets, no key is held twice, a call that does not admit changes no
usage counter, and without guards every counter is zero. -/
theorem admission_conserves (cfg : ResolvedSchedulerConfig) (ops : List AdmissionOp)
    (hfit : RunFits cfg .init ops) :
    let sys := System.init.run cfg ops
    Conserves sys.inner sys.live ∧ Within cfg sys.live ∧ Exclusive sys.live ∧
    (∀ dims, (∀ guard, (tryAdmit cfg sys.inner dims).1 ≠ .admitted guard) →
      SameUsage sys.inner (tryAdmit cfg sys.inner dims).2) ∧
    (sys.live = [] → SameUsage .default sys.inner) := by
  intro sys
  obtain ⟨hc, hw, he⟩ : sys.Sound cfg := (System.sound_init cfg).run hfit
  refine ⟨hc, hw, he, ?_, ?_⟩
  · intro dims hno
    rcases tryAdmit_cases cfg sys.inner dims with ⟨-, hdec, -⟩ | ⟨-, hsame⟩
    · exact absurd hdec (hno _)
    · exact hsame
  · intro hnil
    have hempty : ∀ m : CountMap String, m.Counts (fun _ => 0) → m = fun _ => none :=
      fun m hm => funext (fun k => hm k)
    obtain ⟨h1, h2, h3, h4, h5, h6, h7, h8, h9⟩ := hc
    unfold SameUsage
    cases hs : sys.inner
    simp_all only [total_nil, InnerState.default, InnerState.mk.injEq, true_and, and_true]
    exact ⟨hempty _ h8, hempty _ h9, hempty _ h7⟩

/-- A build of a workspace, a remote job with an exclusive key, a second build
that has to wait, and the drop of both guards. -/
def mixedRun : List AdmissionOp :=
  [.tryAdmit ⟨1, 256, 1, 1, 0, [], [⟨"build:w1", 1⟩], none⟩,
    .tryAdmit ⟨1, 256, 1, 1, 0, ["exclusive:repo"], [], some "node"⟩,
    .tryAdmit ⟨1, 256, 1, 1, 0, [], [⟨"build:w1", 1⟩], none⟩, .drop 0, .drop 0]

theorem runFits_mixedRun : RunFits .default .init mixedRun := by
  refine ⟨?_, ?_, ?_, trivial, trivial, trivial⟩
  · show SumsFit _ _ _
    decide
  · show SumsFit _ _ _
    decide
  · show SumsFit _ _ _
    decide

theorem admission_conserves_mixedRun :
    RunFits .default .init mixedRun ∧
      SameUsage .default (System.init.run .default mixedRun).inner :=
  ⟨runFits_mixedRun, (admission_conserves .default mixedRun runFits_mixedRun).2.2.2.2 (by decide)⟩

/-- Half of the range of a 32-bit counter. -/
def halfRange : PermitDimensions := ⟨2 ^ 31, 0, 1, 0, 0, [], [], none⟩

/-- Under the largest CPU budget two such requests are admitted, and the counter
wraps around to zero. -/
theorem cpu_counter_wraps :
    let cfg : ResolvedSchedulerConfig := { ResolvedSchedulerConfig.default with
      resources := { ResolvedSchedulerConfig.default.resources with maxCpuWeight := 2 ^ 32 - 1 } }
    let sys := System.init.run cfg [.tryAdmit halfRange, .tryAdmit halfRange]
    sys.live = [halfRange, halfRange] ∧ sys.inner.usedCpu = 0 ∧
      total (localCharge (·.cpuWeight)) sys.live = 2 ^ 32 ∧
      cfg.resources.maxCpuWeight < total (localCharge (·.cpuWeight)) sys.live := by
  decide

end Codegg.Scheduler.AdmissionController
