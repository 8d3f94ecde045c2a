import Codegg.Workstream.Exclusion

/-!
# Claim dependencies

A claim waits for prerequisites of its own group, project and workspace, and the relation
between claims stays acyclic: a request that would close a cycle, or that repeats an edge,
is answered with `dependencyCycle` once the requester has passed the earlier checks.
-/
namespace Codegg.Workstream

open Codegg.Library
open Codegg.Library.Worklist (Acyclic withPair acyclic_withPair_iff)
open Relation (TransGen)
open UniqueTable Step

variable {T : TextTables}

/-- Claim `a` waits for claim `b`. -/
def Requires (table : DependencyTable) (a b : String) : Prop :=
  ∃ d ∈ table.rows, d.claimId = a ∧ d.prerequisite = .claim b

theorem mem_prerequisiteClaims {table : DependencyTable} {a b : String} :
    b ∈ prerequisiteClaims table a ↔ Requires table a b := by
  simp only [prerequisiteClaims, List.mem_filterMap]
  constructor
  · rintro ⟨d, hd, h⟩
    cases hp : d.prerequisite with
    | claim id =>
      by_cases ha : d.claimId = a
      · simp only [hp, ha, if_true, Option.some.injEq] at h
        exact ⟨d, hd, ha, by rw [hp, h]⟩
      · simp [hp, ha] at h
    | run id => simp [hp] at h
  · rintro ⟨d, hd, ha, hp⟩
    exact ⟨d, hd, by simp [hp, ha]⟩

/-- The claim that is required, if it is a claim. -/
def ClaimPrerequisite.claimId : ClaimPrerequisite → Option String
  | .claim id => some id
  | .run _ => none

/-- The recursive query finds what can be reached. -/
theorem mem_recursiveDeps (table : DependencyTable) {start x : String} (hne : x ≠ start) :
    x ∈ recursiveDeps table start ↔ TransGen (Requires table) start x := by
  have hchild : Worklist.Child (prerequisiteClaims table) = Requires table := by
    funext a b
    exact propext mem_prerequisiteClaims
  -- every claim that is found is the prerequisite of some row
  have huniverse : ∀ a, ∀ b ∈ prerequisiteClaims table a,
      b ∈ table.rows.filterMap (·.prerequisite.claimId) := by
    intro a b hb
    obtain ⟨d, hd, -, hp⟩ := mem_prerequisiteClaims.mp hb
    exact List.mem_filterMap.mpr ⟨d, hd, by rw [hp]; rfl⟩
  have hlength := List.length_filterMap_le (fun d : DependencyRow => d.prerequisite.claimId)
    table.rows
  have hsearch : Worklist.Searching (prerequisiteClaims table) start
      ⟨[], recursiveDeps table start⟩ :=
    Worklist.Searching.search huniverse Worklist.searching_start
      (fun _ h => absurd h List.not_mem_nil) (by
        simp only [List.length_cons]
        omega)
  rw [hsearch.mem_iff, hchild]
  simp [hne]

/-! ### Scopes -/

structure SameScope (c p : ClaimRow) : Prop where
  groupId_eq : p.groupId = c.groupId
  projectId_eq : p.projectId = c.projectId
  workspaceId_eq : p.workspaceId = c.workspaceId

theorem SameScope.evolve {c c' p p' : ClaimRow} (h : SameScope c p) (hc : Evolves c c')
    (hp : Evolves p p') : SameScope c' p' where
  groupId_eq := by rw [hp.groupId_eq, hc.groupId_eq, h.groupId_eq]
  projectId_eq := by rw [hp.projectId_eq, hc.projectId_eq, h.projectId_eq]
  workspaceId_eq := by rw [hp.workspaceId_eq, hc.workspaceId_eq, h.workspaceId_eq]

/-- Every edge between claims stays within one group, project and workspace. -/
def Scoped (claims : ClaimTable) (dependencies : DependencyTable) : Prop :=
  ∀ a b, Requires dependencies a b → ∃ c p, claims.get? a = some c ∧ claims.get? b = some p ∧
    SameScope c p

theorem Scoped.aged {claims claims' : ClaimTable} {dependencies : DependencyTable}
    (h : Scoped claims dependencies) (ha : Aged claims claims') : Scoped claims' dependencies := by
  intro a b hab
  obtain ⟨c, p, hc, hp, hscope⟩ := h a b hab
  obtain ⟨c', hc', hec⟩ := ha.get? hc
  obtain ⟨p', hp', hep⟩ := ha.get? hp
  exact ⟨c', p', hc', hp', hscope.evolve hec hep⟩

/-- The prerequisite belongs to the scope of the claim. -/
def InScope (dir : Directory) (claims : ClaimTable) (c : ClaimRow) : ClaimPrerequisite → Prop
  | .claim id => ∃ p, claims.get? id = some p ∧ SameScope c p
  | .run id => id ∈ dir.scopedMembers c.groupId c.projectId c.workspaceId

theorem sameScopeClaim_iff {claims : ClaimTable} {c : ClaimRow} {id : String} :
    sameScopeClaim claims c.toWorkstreamClaim id = true ↔
      ∃ p, claims.get? id = some p ∧ SameScope c p := by
  simp only [sameScopeClaim, List.any_eq_true, Bool.and_eq_true, decide_eq_true_eq]
  constructor
  · rintro ⟨p, hp, ⟨⟨hid, hgroup⟩, hproject⟩, hworkspace⟩
    exact ⟨p, get?_eq_some.mpr ⟨hp, hid⟩, hgroup, hproject, hworkspace⟩
  · rintro ⟨p, hget, hgroup, hproject, hworkspace⟩
    obtain ⟨hp, hid⟩ := get?_eq_some.mp hget
    exact ⟨p, hp, ⟨⟨hid, hgroup⟩, hproject⟩, hworkspace⟩

/-! ### The checks -/

/-- The requester may add the prerequisite to the claim, as far as its standing, the revision
it knows, the fan-out and the scope go. -/
structure Eligible (dir : Directory) (db : WorkstreamDb) (claimId : String)
    (prerequisite : ClaimPrerequisite) (actor : ClaimActor) (expectedVersion : ℕ)
    (row : ClaimRow) : Prop where
  found : db.claims.get? claimId = some row
  authorized : dir.validateGroupActor row.groupId row.projectId row.workspaceId actor = .ok ()
  owner_eq : row.owner = actor
  version_eq : row.version = expectedVersion
  room : db.dependencies.affected (fun d => decide (d.claimId = claimId)) < maxClaimDependencies
  inScope : InScope dir db.claims row prerequisite

/-- With the edge the relation between claims would have a cycle. -/
def ClosesCycle (db : WorkstreamDb) (claimId : String) : ClaimPrerequisite → Prop
  | .claim id => ¬Acyclic (withPair (Requires db.dependencies) claimId id)
  | .run _ => False

def RepeatsEdge (db : WorkstreamDb) (claimId : String) (prerequisite : ClaimPrerequisite) : Prop :=
  ∃ d ∈ db.dependencies.rows, d.edge = (claimId, prerequisite)

variable {e : WorkstreamClaimError} {row : ClaimRow} {s : Session}

theorem validateGroupActor_error {dir : Directory} {groupId projectId workspaceId : String}
    {actor : ClaimActor} (h : dir.validateGroupActor groupId projectId workspaceId actor = .error e)
    :
    e = .notFound ∨ e = .unauthorized := by
  unfold Directory.validateGroupActor at h
  cases hgroup : dir.groups groupId with
  | none => simp_all
  | some group =>
    simp only [hgroup] at h
    split at h
    · simp_all
    · split at h <;> simp_all

variable {dir : Directory} {db : WorkstreamDb} {claimId : String} {actor : ClaimActor}
  {expectedVersion : ℕ}

theorem checkDependent_ok {current : WorkstreamClaim} :
    checkDependent dir db claimId actor expectedVersion = .ok current ↔
      ∃ row, db.claims.get? claimId = some row ∧
        dir.validateGroupActor row.groupId row.projectId row.workspaceId actor = .ok () ∧
        row.owner = actor ∧ row.version = expectedVersion ∧
        db.dependencies.affected (fun d => decide (d.claimId = claimId)) < maxClaimDependencies ∧
        current = row.toWorkstreamClaim := by
  unfold checkDependent
  cases hget : db.claims.get? claimId with
  | none => simp
  | some row =>
    cases hvalid : dir.validateGroupActor row.groupId row.projectId row.workspaceId actor with
    | error e => simp [hvalid]
    | ok u =>
      by_cases howner : row.owner = actor
      · by_cases hversion : row.version = expectedVersion
        · by_cases hroom : maxClaimDependencies ≤
              db.dependencies.affected (fun d => decide (d.claimId = claimId))
          · simp [hvalid, howner, hversion, hroom]
          · simp only [hvalid, howner, hversion, hroom, ne_eq, not_true_eq_false, if_false,
              Except.ok.injEq, Option.some.injEq, exists_eq_left', true_and, not_le.mp hroom]
            exact eq_comm
        · simp [hvalid, howner, hversion]
      · simp [hvalid, howner]

theorem checkDependent_ne_cycle :
    checkDependent dir db claimId actor expectedVersion ≠ .error .dependencyCycle := by
  unfold checkDependent
  cases hget : db.claims.get? claimId with
  | none => simp
  | some row =>
    cases hvalid : dir.validateGroupActor row.groupId row.projectId row.workspaceId actor with
    | error e => rcases validateGroupActor_error hvalid with rfl | rfl <;> simp [hvalid]
    | ok u =>
      simp only [hvalid]
      split_ifs <;> simp

theorem closesCycle_iff (h : Acyclic (Requires db.dependencies)) {id : String} :
    ClosesCycle db claimId (.claim id) ↔
      id = claimId ∨ TransGen (Requires db.dependencies) id claimId := by
  rw [ClosesCycle, acyclic_withPair_iff h, not_and_or, not_not, not_not, eq_comm]

theorem checkPrerequisite_ok (h : Acyclic (Requires db.dependencies))
    {prerequisite : ClaimPrerequisite} :
    checkPrerequisite dir db row.toWorkstreamClaim prerequisite = .ok () ↔
      InScope dir db.claims row prerequisite ∧ ¬ClosesCycle db row.claimId prerequisite := by
  cases prerequisite with
  | run id =>
    simp only [checkPrerequisite, InScope, ClosesCycle]
    split_ifs with hmem <;> simp [hmem]
  | claim id =>
    rw [closesCycle_iff h, InScope, ← sameScopeClaim_iff]
    simp only [checkPrerequisite]
    by_cases hself : id = row.claimId
    · simp [hself]
    · have hdeps := mem_recursiveDeps db.dependencies (Ne.symm hself)
      by_cases hscope : sameScopeClaim db.claims row.toWorkstreamClaim id = true
      · by_cases hreach : row.claimId ∈ recursiveDeps db.dependencies id
        · simp [hscope, hreach, hdeps.mp hreach]
        · have hreach' := mt hdeps.mpr hreach
          simp [hself, hreach, hreach']
      · simp [hself, hscope]

/-- A prerequisite in scope is refused for its cycle alone. -/
theorem checkPrerequisite_cycle (h : Acyclic (Requires db.dependencies))
    (hrow : row ∈ db.claims.rows) {prerequisite : ClaimPrerequisite} :
    checkPrerequisite dir db row.toWorkstreamClaim prerequisite = .error .dependencyCycle ↔
      InScope dir db.claims row prerequisite ∧ ClosesCycle db row.claimId prerequisite := by
  cases prerequisite with
  | run id =>
    simp only [checkPrerequisite, ClosesCycle]
    split_ifs with hmem <;> simp
  | claim id =>
    rw [closesCycle_iff h, InScope, ← sameScopeClaim_iff]
    simp only [checkPrerequisite]
    by_cases hself : id = row.claimId
    · have hscope : sameScopeClaim db.claims row.toWorkstreamClaim row.claimId = true :=
        sameScopeClaim_iff.mpr
          ⟨row, get?_eq_some.mpr ⟨hrow, rfl⟩, rfl, rfl, rfl⟩
      simp [hself, hscope]
    · have hdeps := mem_recursiveDeps db.dependencies (Ne.symm hself)
      by_cases hscope : sameScopeClaim db.claims row.toWorkstreamClaim id = true
      · by_cases hreach : row.claimId ∈ recursiveDeps db.dependencies id
        · simp [hself, hreach, hdeps.mp hreach]
        · have hreach' := mt hdeps.mpr hreach
          simp [hscope, hreach, hreach']
      · simp [hself, hscope]

/-! ### Recording an edge -/

theorem insertClaimEvent_ne_cycle (c : WorkstreamClaim) (actor : ClaimActor)
    (action : ClaimAction) :
    Triple (fun _ => True) (insertClaimEvent c actor action) (fun _ _ => True)
      (fun e _ => e ≠ .dependencyCycle) := by
  refine Triple.get_bind fun s _ => ?_
  refine Triple.bind (P := fun _ => True) (Triple.failIf (R := fun _ _ => True)
    (fun _ _ _ => by simp) fun _ _ _ => trivial) (fun _ => ?_) s trivial
  refine Triple.bind (R := fun _ _ => True) (fun _ _ => trivial) fun _ => ?_
  refine Triple.bind (Triple.failIf (R := fun _ _ => True) (fun _ _ _ => by simp)
    fun _ _ _ => trivial) fun _ => ?_
  split
  · exact Triple.throw fun _ _ => by simp
  · exact .modify fun _ _ => trivial

variable {prerequisite : ClaimPrerequisite} {current : WorkstreamClaim}

/-- The writing statements refuse nothing but an edge that is there. -/
theorem recordDependency_refused :
    (∃ s', recordDependency claimId prerequisite actor expectedVersion current s =
        .error .dependencyCycle s') ↔ RepeatsEdge s.db claimId prerequisite := by
  have hnow : nowMs s = .ok (s.clock 0) { s with clock := fun n => s.clock (n + 1) } := rfl
  rw [recordDependency, bind_of_ok hnow]
  cases hins : s.db.dependencies.insert? ⟨claimId, prerequisite, s.clock 0⟩ with
  | none =>
    have hrefused : insertDependency ⟨claimId, prerequisite, s.clock 0⟩
        { s with clock := fun n => s.clock (n + 1) } =
        .error .dependencyCycle { s with clock := fun n => s.clock (n + 1) } := by
      rw [insertDependency, get_bind]
      simp only [hins]
      rfl
    refine ⟨fun _ => ?_, fun _ => ⟨_, bind_of_error hrefused⟩⟩
    by_contra hn
    have hfresh : ∀ d ∈ s.db.dependencies.rows,
        d.edge ≠ DependencyRow.edge ⟨claimId, prerequisite, s.clock 0⟩ :=
      fun d hd he => hn ⟨d, hd, he⟩
    obtain ⟨t', ht'⟩ := insert?_isSome hfresh hfresh
    rw [hins] at ht'
    cases ht'
  | some dependencies =>
    constructor
    · rintro ⟨s', h⟩
      refine absurd rfl (Triple.of_error (P := fun s' => s'.db = s.db)
        (Q := fun _ _ => True) (E := fun e _ => e ≠ .dependencyCycle) ?_ rfl h)
      refine Triple.bind (R := fun _ _ => True) ?_ fun _ => ?_
      · intro s₁ hs₁
        rw [insertDependency, get_bind, hs₁]
        simp only [hins]
        trivial
      · refine .bind (R := fun _ _ => True) (fun _ _ => trivial) fun _ => ?_
        refine Triple.bind (Triple.failIf (R := fun _ _ => True) (fun _ _ _ => by simp)
          fun _ _ _ => trivial) fun _ => ?_
        exact .bind (insertClaimEvent_ne_cycle _ _ _) fun _ => .pure fun _ _ => trivial
    · rintro ⟨d, hd, he⟩
      exact absurd he (fresh_of_insert? hins d hd)

theorem recordDependency_ok {s' : Session} {c : WorkstreamClaim}
    (h : recordDependency claimId prerequisite actor expectedVersion current s = .ok c s') :
    ∃ now, s.db.dependencies.insert? ⟨claimId, prerequisite, now⟩ = some s'.db.dependencies := by
  obtain ⟨now, s₁, hnow, h₁⟩ := bind_eq_ok h
  cases hnow
  obtain ⟨_, s₂, hinsert, h₂⟩ := bind_eq_ok h₁
  obtain ⟨_, _, hupdate, h₃⟩ := bind_eq_ok h₂
  cases hupdate
  obtain ⟨_, _, hchanged, h₄⟩ := bind_eq_ok h₃
  obtain ⟨-, rfl⟩ := failIf_eq_ok hchanged
  obtain ⟨_, _, hevent, h₅⟩ := bind_eq_ok h₄
  cases h₅
  have hevent := ((Quiet.insertClaimEvent _ _ _).of_ok hevent).2
  refine ⟨s.clock 0, ?_⟩
  rw [hevent]
  rw [insertDependency, get_bind] at hinsert
  cases hins : s.db.dependencies.insert? ⟨claimId, prerequisite, s.clock 0⟩ with
  | none =>
    simp only [hins] at hinsert
    cases hinsert
  | some dependencies =>
    simp only [hins] at hinsert
    cases hinsert
    rfl

theorem locked_of_dependent_error
    (h : checkDependent dir s.db claimId actor expectedVersion = .error e) :
    addDependencyLocked dir claimId prerequisite actor expectedVersion s = .error e s := by
  rw [addDependencyLocked, get_bind]
  exact bind_of_error (liftExcept_error h s)

theorem locked_of_prerequisite_error
    (h : checkDependent dir s.db claimId actor expectedVersion = .ok current)
    (h' : checkPrerequisite dir s.db current prerequisite = .error e) :
    addDependencyLocked dir claimId prerequisite actor expectedVersion s = .error e s := by
  rw [addDependencyLocked, get_bind, bind_of_ok (liftExcept_ok h s)]
  exact bind_of_error (liftExcept_error h' s)

theorem locked_of_checked (h : checkDependent dir s.db claimId actor expectedVersion = .ok current)
    (h' : checkPrerequisite dir s.db current prerequisite = .ok ()) :
    addDependencyLocked dir claimId prerequisite actor expectedVersion s =
      recordDependency claimId prerequisite actor expectedVersion current s := by
  rw [addDependencyLocked, get_bind, bind_of_ok (liftExcept_ok h s)]
  exact bind_of_ok (liftExcept_ok h' s)

/-! ### The answers of a request -/

theorem refused_iff (s : Session) (h : Acyclic (Requires s.db.dependencies)) :
    (∃ s', addDependencyLocked dir claimId prerequisite actor expectedVersion s =
        .error .dependencyCycle s') ↔
      (∃ row, Eligible dir s.db claimId prerequisite actor expectedVersion row) ∧
        (ClosesCycle s.db claimId prerequisite ∨ RepeatsEdge s.db claimId prerequisite) := by
  cases hcheck : checkDependent dir s.db claimId actor expectedVersion with
  | error e =>
    rw [locked_of_dependent_error hcheck]
    constructor
    · rintro ⟨s', he⟩
      cases he
      exact absurd hcheck checkDependent_ne_cycle
    · rintro ⟨⟨row, hrow⟩, -⟩
      have hok := checkDependent_ok.mpr ⟨row, hrow.found, hrow.authorized, hrow.owner_eq,
        hrow.version_eq, hrow.room, rfl⟩
      rw [hcheck] at hok
      cases hok
  | ok current =>
    obtain ⟨row, hget, hvalid, howner, hversion, hroom, rfl⟩ := checkDependent_ok.mp hcheck
    obtain ⟨hmem, rfl⟩ := get?_eq_some.mp hget
    have heligible : (∃ row', Eligible dir s.db row.claimId prerequisite actor expectedVersion row')
        ↔ InScope dir s.db.claims row prerequisite := by
      constructor
      · rintro ⟨row', hrow'⟩
        rw [← Option.some.inj (hget.symm.trans hrow'.found)] at hrow'
        exact hrow'.inScope
      · exact fun hscope => ⟨row, hget, hvalid, howner, hversion, hroom, hscope⟩
    rw [heligible]
    cases hprerequisite : checkPrerequisite dir s.db row.toWorkstreamClaim prerequisite with
    | error e =>
      rw [locked_of_prerequisite_error hcheck hprerequisite]
      constructor
      · rintro ⟨s', he⟩
        cases he
        obtain ⟨hscope, hcycle⟩ := (checkPrerequisite_cycle h hmem).mp hprerequisite
        exact ⟨hscope, .inl hcycle⟩
      · rintro ⟨hscope, -⟩
        by_cases hcycle : ClosesCycle s.db row.claimId prerequisite
        · rw [(checkPrerequisite_cycle h hmem).mpr ⟨hscope, hcycle⟩] at hprerequisite
          cases hprerequisite
          exact ⟨s, rfl⟩
        · rw [(checkPrerequisite_ok h).mpr ⟨hscope, hcycle⟩] at hprerequisite
          cases hprerequisite
    | ok u =>
      obtain ⟨hscope, hcycle⟩ := (checkPrerequisite_ok h).mp hprerequisite
      rw [locked_of_checked hcheck hprerequisite, recordDependency_refused]
      simp [hscope, hcycle]

/-- A request that is granted was eligible and closed no cycle. -/
theorem granted {s' : Session} {c : WorkstreamClaim} (h : Acyclic (Requires s.db.dependencies))
    (hc : addDependencyLocked dir claimId prerequisite actor expectedVersion s = .ok c s') :
    ∃ row, Eligible dir s.db claimId prerequisite actor expectedVersion row ∧
      ¬ClosesCycle s.db claimId prerequisite ∧ ∃ now,
        s.db.dependencies.insert? ⟨claimId, prerequisite, now⟩ = some s'.db.dependencies := by
  cases hcheck : checkDependent dir s.db claimId actor expectedVersion with
  | error e =>
    rw [locked_of_dependent_error hcheck] at hc
    cases hc
  | ok current =>
    obtain ⟨row, hget, hvalid, howner, hversion, hroom, rfl⟩ := checkDependent_ok.mp hcheck
    obtain ⟨hmem, rfl⟩ := get?_eq_some.mp hget
    cases hprerequisite : checkPrerequisite dir s.db row.toWorkstreamClaim prerequisite with
    | error e =>
      rw [locked_of_prerequisite_error hcheck hprerequisite] at hc
      cases hc
    | ok u =>
      rw [locked_of_checked hcheck hprerequisite] at hc
      obtain ⟨hscope, hcycle⟩ := (checkPrerequisite_ok h).mp hprerequisite
      exact ⟨row, ⟨hget, hvalid, howner, hversion, hroom, hscope⟩, hcycle,
        recordDependency_ok hc⟩

/-! ### Runs -/

/-- What every call keeps. -/
structure WellLinked (claims : ClaimTable) (dependencies : DependencyTable) : Prop where
  acyclic : Acyclic (Requires dependencies)
  inScope : Scoped claims dependencies

theorem wellLinked_empty : WellLinked empty empty := by
  have hnone : ∀ a b, ¬Requires empty a b := by
    rintro a b ⟨d, hd, -⟩
    exact List.not_mem_nil hd
  refine ⟨fun x hx => ?_, fun a b hab => absurd hab (hnone a b)⟩
  obtain ⟨y, hxy, -⟩ := TransGen.head'_iff.mp hx
  exact hnone x y hxy

theorem requires_insert? {dependencies dependencies' : DependencyTable} {now : ℤ}
    (h : dependencies.insert? ⟨claimId, prerequisite, now⟩ = some dependencies') (a b : String) :
    Requires dependencies' a b ↔
      Requires dependencies a b ∨ a = claimId ∧ prerequisite = .claim b := by
  simp only [Requires, insert?_rows h, List.mem_append, List.mem_singleton]
  constructor
  · rintro ⟨d, hd | rfl, ha, hb⟩
    · exact .inl ⟨d, hd, ha, hb⟩
    · exact .inr ⟨ha.symm, hb⟩
  · rintro (⟨d, hd, ha, hb⟩ | ⟨ha, hb⟩)
    · exact ⟨d, .inl hd, ha, hb⟩
    · exact ⟨_, .inr rfl, ha.symm, hb⟩

/-- A granted edge keeps the relation acyclic and within its scope. -/
theorem WellLinked.insert {dependencies' : DependencyTable} {now : ℤ}
    (h : WellLinked db.claims db.dependencies)
    (hrow : Eligible dir db claimId prerequisite actor expectedVersion row)
    (hcycle : ¬ClosesCycle db claimId prerequisite)
    (hins : db.dependencies.insert? ⟨claimId, prerequisite, now⟩ = some dependencies') :
    WellLinked db.claims dependencies' := by
  constructor
  · cases prerequisite with
    | run id =>
      have hsame : Requires dependencies' = Requires db.dependencies := by
        funext a b
        simp [requires_insert? hins]
      rw [hsame]
      exact h.acyclic
    | claim id =>
      have hpair : Requires dependencies' = withPair (Requires db.dependencies) claimId id := by
        funext a b
        simp [requires_insert? hins, withPair, eq_comm]
      rw [hpair]
      exact not_not.mp hcycle
  · intro a b hab
    rcases (requires_insert? hins a b).mp hab with hab | ⟨rfl, rfl⟩
    · exact h.inScope a b hab
    · obtain ⟨p, hp, hscope⟩ := hrow.inScope
      exact ⟨row, p, hrow.found, hp, hscope⟩

abbrev EdgesAre (d₀ : DependencyTable) : ClaimTable → DependencyTable → Prop := fun _ d => d = d₀

theorem transition_edges (d₀ : DependencyTable) (dir : Directory) (cas : ClaimCas) :
    Triple (Holds (EdgesAre d₀)) (transition dir cas) (fun _ => Holds (EdgesAre d₀))
      (fun _ => Holds (EdgesAre d₀)) := by
  refine transaction_holds fun s hs => ?_
  cases h : transitionLocked dir cas s with
  | error e s' => trivial
  | ok c s' =>
    obtain ⟨row, next, now, hmoved⟩ := transitionLocked_ok h
    exact hmoved.dependencies_eq.trans hs

theorem next_wellLinked (h : WellLinked db.claims db.dependencies) (step : Step) :
    WellLinked (step.next T db).claims (step.next T db).dependencies := by
  have hsound := next_sound (T := T) db step
  -- only `addDependency` changes the edges
  have hkept : (step.next T db).dependencies = db.dependencies →
      WellLinked (step.next T db).claims (step.next T db).dependencies := by
    intro he
    rw [he]
    exact ⟨h.acyclic, h.inScope.aged hsound.aged⟩
  have hrefl : Holds (EdgesAre db.dependencies) ⟨db, step.clock, step.uuids⟩ := rfl
  cases hcall : step.call with
  | claim input =>
    apply hkept
    unfold next outcome perform
    rw [hcall]
    simp only [finalState_map]
    have hend : Holds (fun t d => Sound T db.claims t d ∧ d = db.dependencies)
        (finalState (claim T step.directory step.order input ⟨db, step.clock, step.uuids⟩)) :=
      (claim_spec step.directory step.order input).finalState ⟨Sound.refl db.claims _, rfl⟩
    exact hend.2
  | transition cas =>
    apply hkept
    unfold next outcome perform
    rw [hcall]
    simp only [finalState_map]
    exact (transition_edges _ step.directory cas).finalState hrefl
  | requestHandoff claimId actor =>
    apply hkept
    unfold next outcome perform
    rw [hcall]
    simp only [finalState_map]
    exact (transaction_holds ((Quiet.requestHandoffLocked step.directory claimId actor).holds
      (EdgesAre db.dependencies))).finalState hrefl
  | addDependency claimId prerequisite actor expectedVersion =>
    have hnext : step.next T db = (finalState (addDependency step.directory claimId prerequisite
        actor expectedVersion ⟨db, step.clock, step.uuids⟩)).db := by
      unfold next outcome perform
      rw [hcall]
      simp [finalState_map]
    cases hrun : addDependency step.directory claimId prerequisite actor expectedVersion
        ⟨db, step.clock, step.uuids⟩ with
    | error e s' =>
      rw [hrun, finalState_error, transaction_error hrun] at hnext
      exact hkept (by rw [hnext])
    | ok c s' =>
      rw [hrun, finalState_ok] at hnext
      obtain ⟨row, hrow, hcycle, now, hins⟩ := granted h.acyclic (transaction_eq_ok hrun)
      have hlinked := h.insert hrow hcycle hins
      rw [← hnext] at hlinked
      exact ⟨hlinked.acyclic, hlinked.inScope.aged hsound.aged⟩

theorem runSteps_wellLinked (h : WellLinked db.claims db.dependencies) (steps : List Step) :
    WellLinked (runSteps T db steps).claims (runSteps T db steps).dependencies := by
  induction steps generalizing db with
  | nil => exact h
  | cons step steps ih => exact ih (next_wellLinked h step)

/-- A request by its transaction. -/
theorem reply_addDependency {step : Step}
    (hcall : step.call = .addDependency claimId prerequisite actor expectedVersion) :
    step.reply T db = .error e ↔ ∃ s', addDependency step.directory claimId prerequisite actor
      expectedVersion ⟨db, step.clock, step.uuids⟩ = .error e s' := by
  rw [reply_eq_error]
  unfold outcome perform
  rw [hcall]
  simp [map_eq_error]

theorem transaction_error_iff {α : Type} {x : ClaimM α} :
    (∃ s', transaction x s = .error e s') ↔ ∃ s', x s = .error e s' := by
  unfold transaction
  cases x s with
  | ok a s' => simp
  | error e' s' => simp

/-- In every reachable state the relation between claims is acyclic and every edge stays in one
group, project and workspace. `dependencyCycle` is the answer exactly to the requests that pass
the other checks and close a cycle or repeat an edge; a request that is refused changes nothing;
one that is granted passes the checks. -/
theorem claim_dependencies_acyclic (steps : List Step) :
    Acyclic (Requires (runSteps T .empty steps).dependencies) ∧
    Scoped (runSteps T .empty steps).claims (runSteps T .empty steps).dependencies ∧
    ∀ (step : Step) claimId prerequisite actor expectedVersion,
      step.call = .addDependency claimId prerequisite actor expectedVersion →
      (step.reply T (runSteps T .empty steps) = .error .dependencyCycle ↔
        (∃ row, Eligible step.directory (runSteps T .empty steps) claimId prerequisite actor
          expectedVersion row) ∧
        (ClosesCycle (runSteps T .empty steps) claimId prerequisite ∨
          RepeatsEdge (runSteps T .empty steps) claimId prerequisite)) ∧
      (∀ e, step.reply T (runSteps T .empty steps) = .error e →
        runSteps T .empty (steps ++ [step]) = runSteps T .empty steps) ∧
      (∀ c, step.reply T (runSteps T .empty steps) = .ok c →
        ∃ row, Eligible step.directory (runSteps T .empty steps) claimId prerequisite actor
          expectedVersion row) := by
  have hempty : WellLinked WorkstreamDb.empty.claims WorkstreamDb.empty.dependencies :=
    wellLinked_empty
  have hlinked := runSteps_wellLinked (T := T) hempty steps
  refine ⟨hlinked.acyclic, hlinked.inScope, ?_⟩
  intro step claimId prerequisite actor expectedVersion hcall
  refine ⟨?_, fun e he => ?_, fun c hc => ?_⟩
  · rw [reply_addDependency hcall, addDependency, transaction_error_iff]
    exact refused_iff ⟨_, step.clock, step.uuids⟩ hlinked.acyclic
  · obtain ⟨s', hs'⟩ := (reply_addDependency hcall).mp he
    rw [runSteps_append]
    change step.next T _ = _
    unfold Step.next Step.outcome Step.perform
    rw [hcall]
    simp only [finalState_map]
    rw [hs', finalState_error, transaction_error hs']
  · obtain ⟨s', houtcome, -⟩ := Step.reply_eq_ok.mp hc
    unfold Step.outcome Step.perform at houtcome
    rw [hcall] at houtcome
    obtain ⟨c, hc, -⟩ := map_eq_ok houtcome
    obtain ⟨row, hrow, -⟩ := granted hlinked.acyclic (transaction_eq_ok hc)
    exact ⟨row, hrow⟩

/-- The owner of a claim makes it wait for itself, with a version that is not current. -/
def staleSelfEdge : Step :=
  stepAt 2 "e2" "e2" (.addDependency "c1" (.claim "c1") (.run "r1") 7)

/-- The answer to an edge that closes a cycle need not be `dependencyCycle`: the revision is
checked first. -/
theorem stale_cycle_not_told :
    ¬∀ (steps : List Step) (step : Step) claimId prerequisite actor expectedVersion,
      step.call = .addDependency claimId prerequisite actor expectedVersion →
      (step.reply plainText (runSteps plainText .empty steps) = .error .dependencyCycle ↔
        ClosesCycle (runSteps plainText .empty steps) claimId prerequisite ∨
          RepeatsEdge (runSteps plainText .empty steps) claimId prerequisite) := by
  intro h
  have hcloses : ClosesCycle (runSteps plainText .empty (sources.take 1)) "c1" (.claim "c1") :=
    fun hac => hac "c1" (.single (.inr ⟨rfl, rfl⟩))
  have htold := (h (sources.take 1) staleSelfEdge "c1" (.claim "c1") (.run "r1") 7 rfl).mpr
    (.inl hcloses)
  cases htold

end Codegg.Workstream
