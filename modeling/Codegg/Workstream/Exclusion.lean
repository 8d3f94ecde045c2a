import Codegg.Workstream.Evolution

/-!
# Claims exclude each other

Whatever the calls, their order and the clock: the active claims of a group never overlap,
a transition raises the version, so of two that expect the same version one fails, and a
claim that was released or completed stays so.
-/
namespace Codegg.Workstream

open Codegg.Library UniqueTable

variable (T : TextTables)

/-- The targets of two active claims of a group do not overlap. -/
def Exclusive (table : ClaimTable) : Prop :=
  ∀ r ∈ table.rows, ∀ r' ∈ table.rows, r.claimId ≠ r'.claimId → r.groupId = r'.groupId →
    r.state.isActive = true → r'.state.isActive = true →
    targetsOverlap T r.target.kind r.target.text r'.target.kind r'.target.text = false

/-- Stored texts are in normal form. -/
def NormalForm (table : ClaimTable) : Prop :=
  ∀ r ∈ table.rows, ∀ text, r.target.normalized T = .ok text → text = r.target.text

structure Coherent (table : ClaimTable) : Prop where
  exclusive : Exclusive T table
  normalForm : NormalForm T table

variable {T}

theorem coherent_empty : Coherent T empty :=
  ⟨fun _ hr => absurd hr List.not_mem_nil, fun _ hr => absurd hr List.not_mem_nil⟩

variable {t t' start : ClaimTable} {c : WorkstreamClaim} {cas : ClaimCas} {s s' : Session}

theorem NormalForm.updated (h : NormalForm T t) (hu : Updated t t') :
    NormalForm T t' := by
  intro r' hr' text htext
  obtain ⟨r, hr, he⟩ := hu.source r' hr'
  rw [he.target_eq] at htext ⊢
  exact h r hr text htext

theorem Coherent.updated (h : Coherent T t) (hu : Updated t t') :
    Coherent T t' := by
  refine ⟨?_, h.normalForm.updated hu⟩
  intro a' ha' b' hb' hne hgroup hactive hactive'
  obtain ⟨a, ha, hea⟩ := hu.source a' ha'
  obtain ⟨b, hb, heb⟩ := hu.source b' hb'
  rw [hea.target_eq, heb.target_eq]
  refine h.exclusive a ha b hb ?_ ?_ (hea.active hactive) (heb.active hactive')
  · rwa [hea.claimId_eq, heb.claimId_eq] at hne
  · rwa [hea.groupId_eq, heb.groupId_eq] at hgroup

/-- Normalizing twice is normalizing once. -/
def TextTables.Idempotent (T : TextTables) : Prop := ∀ s, T.nfc (T.nfc s) = T.nfc s

theorem text_withText {target : ClaimTarget} {text : String}
    (h : target.normalized T = .ok text) : (target.withText text).text = text := by
  cases target with
  | task id =>
    cases h
    rfl
  | path value => rfl
  | interface value => rfl

/-- What is claimed is in normal form. -/
theorem normalized_withText (hnfc : T.Idempotent) {target : ClaimTarget} {text : String}
    (h : target.normalized T = .ok text) :
    ∀ text', (target.withText text).normalized T = .ok text' → text' = text := by
  have hstored : ∀ value, normalizeRelativeIntent T value = .ok text →
      ∀ text', normalizeRelativeIntent T text = .ok text' → text' = text := by
    intro value hvalue text' htext'
    rw [normalizeRelativeIntent_eq T htext', normalizeRelativeIntent_eq T hvalue, hnfc]
  cases target with
  | task id =>
    cases h
    exact fun _ h => by cases h; rfl
  | path value => exact hstored value h
  | interface value => exact hstored value h

/-! ### Arbitration -/

/-- The row does not stand in the way of the target. -/
def ClearOf (T : TextTables) (kind : TargetKind) (target : String) (r : ClaimRow) : Prop :=
  targetsOverlap T r.target.kind r.target.text kind target = false

/-- Between two rounds: `rows` are the active rows of the group that are still to be looked
at, and the other active rows are clear of the target. -/
structure Arbitrating (T : TextTables) (input : NewWorkstreamClaim) (target : String)
    (start : ClaimTable) (rows : List ClaimRow) (table : ClaimTable) : Prop where
  updated : Updated start table
  listed : ∀ r ∈ rows, r ∈ table.rows ∧ r.state.isActive = true
  nodup : (rows.map (·.claimId)).Nodup
  clear : NormalForm T start → ∀ r ∈ table.rows, r.groupId = input.groupId →
    r.state.isActive = true → r ∈ rows ∨ ClearOf T input.target.kind target r

namespace Arbitrating

variable {input : NewWorkstreamClaim} {target : String} {start table : ClaimTable}
  {row : ClaimRow} {rows : List ClaimRow}

theorem selected {r : ClaimRow}
    (h : casMatches row.claimId row.version row.leaseGeneration r = true) :
    r.claimId = row.claimId := by
  simp only [casMatches, Bool.and_eq_true, decide_eq_true_eq] at h
  exact h.1.1

theorem selects_self : casMatches row.claimId row.version row.leaseGeneration row = true := by
  simp [casMatches]

/-- The first row's lease is over and it is released. -/
theorem expire (h : Arbitrating T input target start (row :: rows) table) (now : ℤ) :
    Arbitrating T input target start rows
      (table.updateWhere (casMatches row.claimId row.version row.leaseGeneration)
        (expireRow now)) := by
  obtain ⟨hmem, hactive⟩ := h.listed row List.mem_cons_self
  have hu := updated_cas hmem (evolves_expire hactive now) row.version row.leaseGeneration
  have hnodup := List.nodup_cons.mp h.nodup
  refine ⟨h.updated.trans hu, fun r hr => ?_, hnodup.2, fun hnormal => ?_⟩
  · obtain ⟨hr', hractive⟩ := h.listed r (List.mem_cons_of_mem _ hr)
    refine ⟨mem_updateWhere.mpr ⟨r, hr', if_neg fun hp => ?_⟩, hractive⟩
    exact hnodup.1 (List.mem_map.mpr ⟨r, hr, selected hp⟩)
  · intro r' hr' hgroup hr'active
    obtain ⟨r, hr, rfl⟩ := mem_updateWhere.mp hr'
    by_cases hp : casMatches row.claimId row.version row.leaseGeneration r = true
    · rw [updateRow, if_pos hp] at hr'active
      cases hr'active
    · rw [updateRow, if_neg hp] at hgroup hr'active ⊢
      refine (h.clear hnormal r hr hgroup hr'active).imp_left fun hin => ?_
      rcases List.mem_cons.mp hin with rfl | hin
      · exact absurd selects_self hp
      · exact hin

/-- The first row stays and does not overlap. -/
theorem pass (h : Arbitrating T input target start (row :: rows) table)
    (hclear : NormalForm T start → ClearOf T input.target.kind target row) :
    Arbitrating T input target start rows table := by
  refine ⟨h.updated, fun r hr => h.listed r (List.mem_cons_of_mem _ hr),
    (List.nodup_cons.mp h.nodup).2, fun hnormal r hr hgroup hactive => ?_⟩
  rcases h.clear hnormal r hr hgroup hactive with hin | hr'
  · rcases List.mem_cons.mp hin with rfl | hin
    · exact .inr (hclear hnormal)
    · exact .inl hin
  · exact .inr hr'

end Arbitrating

theorem update_holds {p : ClaimRow → Bool} {u : ClaimUpdate}
    {P Q : ClaimTable → DependencyTable → Prop} (h : ∀ t d, P t d → Q (t.updateWhere p u) d) :
    Triple (Holds P) (update p u) (fun _ => Holds Q) anyError :=
  fun s hs => h s.db.claims s.db.dependencies hs

/-- Going through all rows leaves only claims that the target does not overlap. -/
theorem arbitrate_spec (input : NewWorkstreamClaim) (target : String) (start : ClaimTable)
    (edges : DependencyTable) (rows : List ClaimRow) :
    Triple (Holds fun t d => Arbitrating T input target start rows t ∧ d = edges)
      (arbitrate T input target rows)
      (fun _ => Holds fun t d => Arbitrating T input target start [] t ∧ d = edges) anyError := by
  induction rows with
  | nil => exact .pure fun _ h => h
  | cons row rows ih =>
    refine Triple.bind ((Quiet.leaseExpired _).holds _) fun expired => ?_
    cases expired with
    | true =>
      refine Triple.bind ((Quiet.nowMs).holds _) fun now => ?_
      refine .bind (update_holds
        (Q := fun t d => Arbitrating T input target start rows t ∧ d = edges)
        fun _ _ h => ⟨Arbitrating.expire h.1 now, h.2⟩) fun _ => ?_
      refine Triple.bind ((Quiet.nowMs).holds _) fun _ => ?_
      exact Triple.bind ((Quiet.insertClaimEvent _ _ _).holds _) fun _ => ih
    | false =>
      refine Triple.bind ((Quiet.failIf _ _).holds _) fun _ => ?_
      refine Triple.liftExcept_bind (fun _ _ _ => trivial) fun text hnormal => ?_
      refine .bind (.failIf (R := fun _ =>
        Holds fun t d => Arbitrating T input target start rows t ∧ d = edges)
        (fun _ _ _ => trivial) ?_) fun _ => ih
      intro s hs hclear
      refine ⟨Arbitrating.pass hs.1 fun hstart => ?_, hs.2⟩
      obtain ⟨hmem, -⟩ := Arbitrating.listed hs.1 row List.mem_cons_self
      have htext := (hstart.updated (Arbitrating.updated hs.1)) row hmem text hnormal
      rw [htext] at hclear
      exact Bool.eq_false_of_not_eq_true hclear

/-! ### Claiming -/

theorem Coherent.insert {row : ClaimRow} (h : Coherent T t) (hins : t.insert? row = some t')
    (hclear : ∀ r ∈ t.rows, r.groupId = row.groupId → r.state.isActive = true →
      ClearOf T row.target.kind row.target.text r)
    (hnormal : ∀ text, row.target.normalized T = .ok text → text = row.target.text) :
    Coherent T t' := by
  have hrows : ∀ r, r ∈ t'.rows ↔ r ∈ t.rows ∨ r = row := by
    simp [insert?_rows hins]
  constructor
  · intro a ha b hb hne hgroup hactive hactive'
    rcases (hrows a).mp ha with ha | rfl <;> rcases (hrows b).mp hb with hb | rfl
    · exact h.exclusive a ha b hb hne hgroup hactive hactive'
    · exact hclear a ha hgroup hactive
    · rw [targetsOverlap_comm]
      exact hclear b hb hgroup.symm hactive'
    · exact absurd rfl hne
  · intro r hr text htext
    rcases (hrows r).mp hr with hr | rfl
    · exact h.normalForm r hr text htext
    · exact hnormal text htext

/-- The claims of `start` are still there, and coherent if they were. -/
structure Sound (T : TextTables) (start table : ClaimTable) (_ : DependencyTable) : Prop where
  aged : Aged start table
  coherent : T.Idempotent → Coherent T start → Coherent T table

theorem Sound.refl (t : ClaimTable) (d : DependencyTable) : Sound T t t d :=
  ⟨Aged.refl t, fun _ h => h⟩

theorem Sound.trans {t'' : ClaimTable} {d d' : DependencyTable} (h : Sound T t t' d)
    (h' : Sound T t' t'' d') : Sound T t t'' d' :=
  ⟨h.aged.trans h'.aged, fun hnfc ht => h'.coherent hnfc (h.coherent hnfc ht)⟩

theorem Sound.updated {d d' : DependencyTable} (h : Sound T start t d) (hu : Updated t t') :
    Sound T start t' d' :=
  ⟨h.aged.trans hu.aged, fun hnfc hs => (h.coherent hnfc hs).updated hu⟩

section Claiming

variable {start : ClaimTable} {edges : DependencyTable} {input : NewWorkstreamClaim}

theorem insertClaim_spec (claimId : String) (now : ℤ)
    (hnormal : T.Idempotent → ∀ text, input.target.normalized T = .ok text →
      text = input.target.text) :
    Triple (Holds fun t d => Arbitrating T input input.target.text start [] t ∧ d = edges)
      (insertClaim ⟨newClaim input claimId now, input.idempotencyKey⟩)
      (fun _ => Holds fun t d => Sound T start t d ∧ d = edges) anyError := by
  refine Triple.get_bind fun s hs => ?_
  refine Triple.bind ((Quiet.failIf _ _).holds _) (fun _ => ?_) s hs
  refine Triple.bind ((Quiet.failIf _ _).holds _) fun _ => ?_
  have harb : Arbitrating T input input.target.text start [] s.db.claims := hs.1
  cases hins : s.db.claims.insert? ⟨newClaim input claimId now, input.idempotencyKey⟩ with
  | none => exact .throw fun _ _ => trivial
  | some claims =>
    refine .modify fun s' hs' => ⟨⟨harb.updated.aged.trans (aged_insert? hins), ?_⟩, hs'.2⟩
    intro hnfc hstart
    refine (hstart.updated harb.updated).insert hins (fun r hr hgroup hactive => ?_)
      (hnormal hnfc)
    exact (harb.clear hstart.normalForm r hr hgroup hactive).resolve_left List.not_mem_nil

theorem arbitrating_start (input : NewWorkstreamClaim) (target : String) (order : RowOrder)
    (table : ClaimTable) :
    Arbitrating T input target table (order.arrange (activeRows input.groupId table)) table := by
  have hperm := order.perm (activeRows input.groupId table)
  have hlisted : ∀ r ∈ order.arrange (activeRows input.groupId table),
      r ∈ table.rows ∧ r.groupId = input.groupId ∧ r.state.isActive = true := by
    intro r hr
    simpa [activeRows] using hperm.subset hr
  refine ⟨Updated.refl table, fun r hr => ⟨(hlisted r hr).1, (hlisted r hr).2.2⟩, ?_, ?_⟩
  · rw [(hperm.map _).nodup_iff]
    exact table.idents_nodup.sublist (List.filter_sublist.map _)
  · intro _ r hr hgroup hactive
    refine .inl (hperm.symm.subset ?_)
    simp [activeRows, hr, hgroup, hactive]

theorem placeClaim_spec (order : RowOrder)
    (hnormal : T.Idempotent → ∀ text, input.target.normalized T = .ok text →
      text = input.target.text) :
    Triple (Holds fun t d => Sound T start t d ∧ d = edges)
      (placeClaim T order input input.target.text)
      (fun _ => Holds fun t d => Sound T start t d ∧ d = edges) anyError := by
  refine Triple.get_bind fun s hs => ?_
  refine Triple.bind (P := Holds fun t d => Arbitrating T input input.target.text s.db.claims
    (order.arrange (activeRows input.groupId s.db.claims)) t ∧ d = edges)
    ((Quiet.failIf _ _).holds _) (fun _ => ?_) s
    ⟨arbitrating_start input input.target.text order s.db.claims, hs.2⟩
  refine Triple.bind (arbitrate_spec input input.target.text s.db.claims edges _) fun _ => ?_
  refine Triple.bind ((Quiet.newUuid).holds _) fun claimId => ?_
  refine Triple.bind ((Quiet.nowMs).holds _) fun now => ?_
  -- arbitration started from the claims of `s`, which come from those of `start`
  refine Triple.bind (R := fun _ => Holds fun t d => Sound T start t d ∧ d = edges)
    ((insertClaim_spec claimId now hnormal).conseq (fun _ h => h)
      (fun _ _ h => ⟨hs.1.trans h.1, h.2⟩) fun _ _ h => h) fun _ => ?_
  exact Triple.bind ((Quiet.insertClaimEvent _ _ _).holds _) fun _ => (Quiet.pure _).holds _

theorem claimLocked_spec (start : ClaimTable) (edges : DependencyTable)
    (input : NewWorkstreamClaim) (dir : Directory) (order : RowOrder)
    (hnormal : T.Idempotent → ∀ text, input.target.normalized T = .ok text →
      text = input.target.text) :
    Triple (Holds fun t d => Sound T start t d ∧ d = edges)
      (claimLocked T dir order input input.target.text)
      (fun _ => Holds fun t d => Sound T start t d ∧ d = edges) anyError := by
  refine Triple.bind ((Quiet.liftExcept _).holds _) fun _ => ?_
  refine Triple.bind ((Quiet.checkTaskMember _ _).holds _) fun _ => ?_
  refine .get_bind fun s hs => ?_
  cases keyHolder input s.db.claims with
  | some existing => exact (Quiet.liftExcept _).holds _ s hs
  | none => exact placeClaim_spec order hnormal s hs

/-- Claiming leaves sound claims and does not touch the edges. -/
theorem claim_spec (dir : Directory) (order : RowOrder) (input : NewWorkstreamClaim) :
    Triple (Holds fun t d => Sound T start t d ∧ d = edges) (claim T dir order input)
      (fun _ => Holds fun t d => Sound T start t d ∧ d = edges)
      (fun _ => Holds fun t d => Sound T start t d ∧ d = edges) := by
  refine Triple.liftExcept_bind (fun _ _ hs => hs) fun target htarget => ?_
  refine Triple.bind ((Quiet.failIf _ _).keeps _) fun _ => ?_
  refine Triple.bind ((Quiet.leaseRefused _).keeps _) fun _ => ?_
  refine Triple.bind ((Quiet.failIf _ _).keeps _) fun _ => transaction_holds ?_
  have htext := text_withText htarget
  have hlocked := claimLocked_spec start edges
    { input with target := input.target.withText target } dir order fun hnfc => by
      rw [htext]
      exact normalized_withText hnfc htarget
  rwa [htext] at hlocked

end Claiming

/-! ### Transitions and the other calls -/

theorem transitionTarget_active {next : TransitionTarget}
    (h : transitionTarget c cas s = .ok next s') :
    c.state.isActive = true := by
  cases htransition : cas.transition <;> cases hstate : c.state <;>
    simp only [transitionTarget, htransition, hstate] at h <;> first | rfl | cases h

/-- What a transition that succeeds has done. -/
structure Transitioned (cas : ClaimCas) (s s' : Session) (c : WorkstreamClaim) (row : ClaimRow)
    (next : TransitionTarget) (now : ℤ) : Prop where
  found : row ∈ s.db.claims.rows
  claimId_eq : row.claimId = cas.claimId
  version_eq : row.version = cas.expectedVersion
  generation_eq : row.leaseGeneration = cas.expectedLeaseGeneration
  active : row.state.isActive = true
  claims_eq : s'.db.claims = s.db.claims.updateWhere
    (casMatches row.claimId row.version row.leaseGeneration) (moveRow next now)
  dependencies_eq : s'.db.dependencies = s.db.dependencies
  reply_eq : c = next.moved now row.toWorkstreamClaim

theorem loadClaim_ok {claimId : String} (h : loadClaim claimId s = .ok c s') :
    s' = s ∧ ∃ row ∈ s.db.claims.rows, row.claimId = claimId ∧ c = row.toWorkstreamClaim := by
  rw [loadClaim, get_bind] at h
  cases hrow : s.db.claims.get? claimId with
  | none =>
    rw [hrow] at h
    cases h
  | some row =>
    rw [hrow] at h
    cases h
    obtain ⟨hmem, hid⟩ := get?_eq_some.mp hrow
    exact ⟨rfl, row, hmem, hid, rfl⟩

theorem transitionLocked_ok {dir : Directory} (h : transitionLocked dir cas s = .ok c s') :
    ∃ row next now, Transitioned cas s s' c row next now := by
  obtain ⟨_, _, hload, h₁⟩ := bind_eq_ok h
  obtain ⟨rfl, row, hrow, hid, rfl⟩ := loadClaim_ok hload
  obtain ⟨_, _, hvalid, h₂⟩ := bind_eq_ok h₁
  obtain ⟨-, rfl⟩ := liftExcept_eq_ok hvalid
  obtain ⟨_, _, howner, h₃⟩ := bind_eq_ok h₂
  obtain ⟨-, rfl⟩ := failIf_eq_ok howner
  obtain ⟨_, _, hcas, h₄⟩ := bind_eq_ok h₃
  obtain ⟨hrevision, rfl⟩ := failIf_eq_ok hcas
  obtain ⟨hversion, hgeneration⟩ := not_or.mp hrevision
  rw [not_not] at hversion hgeneration
  obtain ⟨_, s₁, hlease, h₅⟩ := bind_eq_ok h₄
  obtain ⟨_, _, hexpired, h₆⟩ := bind_eq_ok h₅
  obtain ⟨-, rfl⟩ := failIf_eq_ok hexpired
  obtain ⟨next, s₂, hnext, h₇⟩ := bind_eq_ok h₆
  obtain ⟨_, s₃, howner', h₈⟩ := bind_eq_ok h₇
  obtain ⟨now, s₄, hnow, h₉⟩ := bind_eq_ok h₈
  have hsame := (((Quiet.leaseExpired _).of_ok hlease).trans _ _ _
    ((Quiet.transitionTarget _ _).of_ok hnext)).trans _ _ _
    (((Quiet.validateNewOwner _ _ _).of_ok howner').trans _ _ _ (Quiet.nowMs.of_ok hnow))
  obtain ⟨_, _, hupdate, h₁₀⟩ := bind_eq_ok h₉
  cases hupdate
  obtain ⟨_, _, hchanged, h₁₁⟩ := bind_eq_ok h₁₀
  obtain ⟨-, rfl⟩ := failIf_eq_ok hchanged
  obtain ⟨_, _, hinsert, h₁₂⟩ := bind_eq_ok h₁₁
  cases h₁₂
  have hevent := (Quiet.insertClaimEvent _ _ _).of_ok hinsert
  refine ⟨row, next, now, hrow, hid, hversion, hgeneration, transitionTarget_active hnext, ?_, ?_,
    rfl⟩
  · rw [hevent.1, hversion, hgeneration, ← hsame.1]
  · rw [hevent.2, ← hsame.2]

theorem transition_spec (dir : Directory) (cas : ClaimCas) :
    Triple (Holds (Sound T start)) (transition dir cas) (fun _ => Holds (Sound T start))
      (fun _ => Holds (Sound T start)) := by
  refine transaction_holds fun s hs => ?_
  cases h : transitionLocked dir cas s with
  | error e s' => trivial
  | ok c s' =>
    obtain ⟨row, next, now, hmoved⟩ := transitionLocked_ok h
    have hu := updated_cas hmoved.found (evolves_move hmoved.active next now) row.version
      row.leaseGeneration
    rw [← hmoved.claims_eq] at hu
    exact Sound.updated hs hu

theorem insertDependency_spec (row : DependencyRow) :
    Triple (Holds (Sound T start)) (insertDependency row) (fun _ => Holds (Sound T start))
      anyError := by
  refine .get_bind fun s hs => ?_
  cases s.db.dependencies.insert? row with
  | none => trivial
  | some dependencies => exact ⟨hs.aged, hs.coherent⟩

theorem recordDependency_spec (claimId : String) (prerequisite : ClaimPrerequisite)
    (actor : ClaimActor) (expectedVersion : ℕ) (current : WorkstreamClaim) :
    Triple (Holds (Sound T start))
      (recordDependency claimId prerequisite actor expectedVersion current)
      (fun _ => Holds (Sound T start)) anyError := by
  refine Triple.bind ((Quiet.nowMs).holds _) fun now => ?_
  refine Triple.bind (insertDependency_spec _) fun _ => ?_
  refine Triple.bind (update_holds (Q := Sound T start) fun t d ht => ?_) fun _ => ?_
  · have hu := updated_updateWhere (t := t)
      (p := fun r => decide (r.claimId = claimId) && decide (r.version = expectedVersion))
      fun r _ _ => evolves_depend r now
    exact ht.updated hu
  · refine Triple.bind ((Quiet.failIf _ _).holds _) fun _ => ?_
    exact Triple.bind ((Quiet.insertClaimEvent _ _ _).holds _) fun _ => (Quiet.pure _).holds _

theorem addDependency_spec (dir : Directory) (claimId : String) (prerequisite : ClaimPrerequisite)
    (actor : ClaimActor) (expectedVersion : ℕ) :
    Triple (Holds (Sound T start))
      (addDependency dir claimId prerequisite actor expectedVersion)
      (fun _ => Holds (Sound T start)) (fun _ => Holds (Sound T start)) := by
  refine transaction_holds (Triple.get_bind fun s₀ hs₀ => ?_)
  refine Triple.bind (P := Holds (Sound T start)) ((Quiet.liftExcept _).holds _) (fun _ => ?_)
    s₀ hs₀
  exact Triple.bind ((Quiet.liftExcept _).holds _) fun _ => recordDependency_spec _ _ _ _ _

theorem Quiet.requestHandoffLocked (dir : Directory) (claimId : String) (actor : ClaimActor) :
    Quiet (Workstream.requestHandoffLocked dir claimId actor) :=
  (Quiet.loadClaim _).bind fun _ => (Quiet.liftExcept _).bind fun _ =>
    (Quiet.failIf _ _).bind fun _ => Quiet.nowMs.bind fun _ => Quiet.insertClaimEvent _ _ _

/-! ### Runs -/

theorem next_sound (db : WorkstreamDb) (step : Step) :
    Sound T db.claims (step.next T db).claims (step.next T db).dependencies := by
  have h := Sound.refl (T := T) db.claims db.dependencies
  unfold Step.next Step.outcome Step.perform
  cases step.call with
  | claim input =>
    rw [finalState_map]
    exact ((claim_spec step.directory step.order input).finalState ⟨h, rfl⟩).1
  | transition cas =>
    rw [finalState_map]
    exact (transition_spec step.directory cas).finalState h
  | addDependency claimId prerequisite actor expectedVersion =>
    rw [finalState_map]
    exact (addDependency_spec step.directory claimId prerequisite actor
      expectedVersion).finalState h
  | requestHandoff claimId actor =>
    rw [finalState_map]
    exact (transaction_holds ((Quiet.requestHandoffLocked step.directory claimId actor).holds
      (Sound T db.claims))).finalState h

theorem runSteps_sound (db : WorkstreamDb) (steps : List Step) :
    Sound T db.claims (runSteps T db steps).claims (runSteps T db steps).dependencies := by
  induction steps generalizing db with
  | nil => exact Sound.refl _ _
  | cons step steps ih => exact (next_sound db step).trans (ih (step.next T db))

theorem runSteps_append (db : WorkstreamDb) (steps more : List Step) :
    runSteps T db (steps ++ more) = runSteps T (runSteps T db steps) more :=
  List.foldl_append

theorem aged_run (steps more : List Step) :
    Aged (runSteps T .empty steps).claims (runSteps T .empty (steps ++ more)).claims := by
  rw [runSteps_append]
  exact (runSteps_sound _ more).aged

/-- A transition that succeeds has moved one row and raised its version. -/
theorem reply_transition {step : Step} {db : WorkstreamDb} {reply : Option WorkstreamClaim}
    (hcall : step.call = .transition cas) (h : step.reply T db = .ok reply) :
    ∃ before after : ClaimRow, db.claims.get? cas.claimId = some before ∧
      (step.next T db).claims.get? cas.claimId = some after ∧
      reply = some after.toWorkstreamClaim ∧ before.version = cas.expectedVersion ∧
      after.version = before.version + 1 := by
  obtain ⟨s', houtcome, hnext⟩ := Step.reply_eq_ok.mp h
  unfold Step.outcome Step.perform at houtcome
  rw [hcall] at houtcome
  obtain ⟨c, hc, rfl⟩ := map_eq_ok houtcome
  obtain ⟨row, next, now, hmoved⟩ := transitionLocked_ok (transaction_eq_ok hc)
  have hrow : db.claims.get? cas.claimId = some row :=
    get?_eq_some.mpr ⟨hmoved.found, hmoved.claimId_eq⟩
  have hafter : (step.next T db).claims.get? cas.claimId =
      some ((moveRow next now).apply row) := by
    rw [hnext, hmoved.claims_eq, get?_updateWhere, hrow]
    simp [updateRow, casMatches]
  refine ⟨row, _, hrow, hafter, ?_, hmoved.version_eq, rfl⟩
  rw [hmoved.reply_eq]
  rfl

def Step.Succeeds (T : TextTables) (db : WorkstreamDb) (step : Step) : Prop :=
  ∃ reply, step.reply T db = .ok reply

/-- A second transition that expects the version a first one found comes too late. -/
theorem expected_once {steps more : List Step} {step step' : Step} {cas' : ClaimCas}
    (hcall : step.call = .transition cas) (hcall' : step'.call = .transition cas')
    (hid : cas'.claimId = cas.claimId) (hversion : cas'.expectedVersion = cas.expectedVersion)
    (h : step.Succeeds T (runSteps T .empty steps)) :
    ¬step'.Succeeds T (runSteps T .empty (steps ++ step :: more)) := by
  rintro ⟨reply', h'⟩
  obtain ⟨reply, h⟩ := h
  obtain ⟨before, after, -, hafter, -, hbefore, hraised⟩ := reply_transition hcall h
  obtain ⟨later, -, hlater, -, -, hexpected, -⟩ := reply_transition hcall' h'
  have haged := aged_run (T := T) (steps ++ [step]) more
  rw [List.append_assoc, List.singleton_append, runSteps_append] at haged
  obtain ⟨row, hrow, hevolves⟩ := haged.get? hafter
  rw [hid, hrow] at hlater
  obtain rfl := Option.some.inj hlater
  have hle := hevolves.version_le
  omega

/-- In every reachable state the active claims of a group do not overlap; a transition that
succeeds raises the version of its claim; of transitions that expect the same version and
lease generation one succeeds at most; what was released or completed stays so. -/
theorem workstream_claims_exclude (hnfc : ∀ s, T.nfc (T.nfc s) = T.nfc s) (steps : List Step) :
    Exclusive T (runSteps T .empty steps).claims ∧
    (∀ (step : Step) cas reply, step.call = .transition cas →
      step.reply T (runSteps T .empty steps) = .ok reply →
      ∃ before after : ClaimRow, (runSteps T .empty steps).claims.get? cas.claimId = some before ∧
        (runSteps T .empty (steps ++ [step])).claims.get? cas.claimId = some after ∧
        reply = some after.toWorkstreamClaim ∧ before.version < after.version) ∧
    (∀ (step step' : Step) cas cas' more, step.call = .transition cas →
      step'.call = .transition cas' → cas'.claimId = cas.claimId →
      cas'.expectedVersion = cas.expectedVersion →
      cas'.expectedLeaseGeneration = cas.expectedLeaseGeneration →
      step.Succeeds T (runSteps T .empty steps) →
      ¬step'.Succeeds T (runSteps T .empty (steps ++ step :: more))) ∧
    (∀ id r more, (runSteps T .empty steps).claims.get? id = some r →
      r.state.isActive = false →
      ∃ r', (runSteps T .empty (steps ++ more)).claims.get? id = some r' ∧
        r'.state = r.state) := by
  refine ⟨((runSteps_sound .empty steps).coherent hnfc coherent_empty).exclusive, ?_, ?_, ?_⟩
  · intro step cas reply hcall h
    obtain ⟨before, after, hbefore, hafter, hreply, -, hraised⟩ := reply_transition hcall h
    rw [runSteps_append]
    exact ⟨before, after, hbefore, hafter, hreply, by omega⟩
  · intro step step' cas cas' more hcall hcall' hid hversion _ h
    exact expected_once hcall hcall' hid hversion h
  · intro id r more hr hfinished
    obtain ⟨r', hr', he⟩ := (aged_run steps more).get? hr
    exact ⟨r', hr', he.finished hfinished⟩

/-! ### Two runs of a group -/

/-- Lower-case ASCII, which both tables leave as it is. -/
def plainText : TextTables := ⟨id, id⟩

/-- A group with two running members. -/
def twoRuns : Directory where
  groups id := if id = "g" then some ⟨.run, "r1", none⟩ else none
  members := [("g", "r1"), ("g", "r2")]
  runs id := if id = "r1" then some ⟨"t1", .running⟩ else if id = "r2" then some ⟨"t2", .running⟩
    else none
  tasks id := if id = "t1" ∨ id = "t2" then some ⟨"p", "w"⟩ else none
  originPrincipal _ := none

def stepAt (now : ℤ) (claimId eventId : String) (call : Call) : Step where
  call := call
  directory := twoRuns
  order := .inserted
  clock _ := now
  uuids n := if n = 0 then claimId else eventId

def pathClaim (run path : String) : NewWorkstreamClaim where
  projectId := "p"
  workspaceId := "w"
  groupId := "g"
  actor := .run run
  target := .path path
  idempotencyKey := run
  leaseExpiresAt := none

def releaseBy (claimId run : String) (version : ℕ) : ClaimCas where
  claimId := claimId
  actor := .run run
  expectedVersion := version
  expectedLeaseGeneration := 1
  transition := .release
  newOwner := none
  leaseExpiresAt := none

def sources : List Step :=
  [stepAt 1 "c1" "e1" (.claim (pathClaim "r1" "src/*.rs")),
   stepAt 2 "c2" "e2" (.claim (pathClaim "r2" "src/main.rs")),
   stepAt 3 "e3" "e3" (.transition (releaseBy "c1" "r1" 1)),
   stepAt 4 "c4" "e4" (.claim (pathClaim "r2" "src/main.rs"))]

/-- The second run is refused while the first holds the sources, and gets its file after the
release; nothing active overlaps. -/
theorem workstream_claims_exclude_sources :
    (runSteps plainText .empty sources).claims.rows.map (fun r => (r.claimId, r.state)) =
      [("c1", .released), ("c4", .claimed)] ∧
    Exclusive plainText (runSteps plainText .empty sources).claims :=
  ⟨by decide, (workstream_claims_exclude (fun _ => rfl) sources).1⟩

end Codegg.Workstream
