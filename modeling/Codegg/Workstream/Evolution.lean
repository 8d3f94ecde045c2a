import Codegg.Workstream.Store

/-!
# What a call may do to a claim

Reading calls leave the tables alone. A change raises the version of one row and keeps its
identity, its scope and its target; a claim that is no longer active keeps its state.
-/
namespace Codegg.Workstream

open Codegg.Library Workstream UniqueTable

/-- A row and what became of it. -/
structure Evolves (r r' : ClaimRow) : Prop where
  claimId_eq : r'.claimId = r.claimId
  projectId_eq : r'.projectId = r.projectId
  workspaceId_eq : r'.workspaceId = r.workspaceId
  groupId_eq : r'.groupId = r.groupId
  target_eq : r'.target = r.target
  version_le : r.version ≤ r'.version
  finished : r.state.isActive = false → r'.state = r.state

variable {r row : ClaimRow} {t t' : ClaimTable} {s s' : Session}

namespace Evolves

theorem refl (r : ClaimRow) : Evolves r r := ⟨rfl, rfl, rfl, rfl, rfl, le_refl _, fun _ => rfl⟩

theorem trans {r' r'' : ClaimRow} (h : Evolves r r') (h' : Evolves r' r'') : Evolves r r'' where
  claimId_eq := h'.claimId_eq.trans h.claimId_eq
  projectId_eq := h'.projectId_eq.trans h.projectId_eq
  workspaceId_eq := h'.workspaceId_eq.trans h.workspaceId_eq
  groupId_eq := h'.groupId_eq.trans h.groupId_eq
  target_eq := h'.target_eq.trans h.target_eq
  version_le := h.version_le.trans h'.version_le
  finished hr := by
    have hstate := h.finished hr
    rw [h'.finished (by rw [hstate, hr]), hstate]

/-- An active row was active before. -/
theorem active {r' : ClaimRow} (h : Evolves r r') (hr : r'.state.isActive = true) :
    r.state.isActive = true := by
  by_contra hn
  have hstate := h.finished (Bool.not_eq_true _ ▸ hn)
  rw [hstate] at hr
  exact hn hr

end Evolves

theorem evolves_expire (hactive : row.state.isActive = true) (now : ℤ) :
    Evolves row ((expireRow now).apply row) where
  claimId_eq := rfl
  projectId_eq := rfl
  workspaceId_eq := rfl
  groupId_eq := rfl
  target_eq := rfl
  version_le := Nat.le_succ _
  finished h := by simp [hactive] at h

theorem evolves_move (hactive : row.state.isActive = true) (next : TransitionTarget) (now : ℤ) :
    Evolves row ((moveRow next now).apply row) where
  claimId_eq := rfl
  projectId_eq := rfl
  workspaceId_eq := rfl
  groupId_eq := rfl
  target_eq := rfl
  version_le := Nat.le_succ _
  finished h := by simp [hactive] at h

theorem evolves_depend (row : ClaimRow) (now : ℤ) : Evolves row ((dependRow now).apply row) where
  claimId_eq := rfl
  projectId_eq := rfl
  workspaceId_eq := rfl
  groupId_eq := rfl
  target_eq := rfl
  version_le := Nat.le_succ _
  finished _ := rfl

/-! ### Tables -/

/-- Every row is still there. -/
def Aged (t t' : ClaimTable) : Prop := ∀ r ∈ t.rows, ∃ r' ∈ t'.rows, Evolves r r'

theorem Aged.refl (t : ClaimTable) : Aged t t := fun r hr => ⟨r, hr, .refl r⟩

theorem Aged.trans {t'' : ClaimTable} (h : Aged t t') (h' : Aged t' t'') : Aged t t'' := by
  intro r hr
  obtain ⟨r', hr', he⟩ := h r hr
  obtain ⟨r'', hr'', he'⟩ := h' r' hr'
  exact ⟨r'', hr'', he.trans he'⟩

theorem Aged.get? (h : Aged t t') {id : String} (hr : t.get? id = some r) :
    ∃ r', t'.get? id = some r' ∧ Evolves r r' := by
  obtain ⟨hmem, rfl⟩ := get?_eq_some.mp hr
  obtain ⟨r', hr', he⟩ := h r hmem
  exact ⟨r', get?_eq_some.mpr ⟨hr', he.claimId_eq⟩, he⟩

/-- The rows are the old ones, further on. -/
structure Updated (t t' : ClaimTable) : Prop where
  aged : Aged t t'
  source : ∀ r' ∈ t'.rows, ∃ r ∈ t.rows, Evolves r r'

theorem Updated.refl (t : ClaimTable) : Updated t t :=
  ⟨Aged.refl t, fun r hr => ⟨r, hr, .refl r⟩⟩

theorem Updated.trans {t'' : ClaimTable} (h : Updated t t') (h' : Updated t' t'') :
    Updated t t'' := by
  refine ⟨h.aged.trans h'.aged, fun r'' hr'' => ?_⟩
  obtain ⟨r', hr', he'⟩ := h'.source r'' hr''
  obtain ⟨r, hr, he⟩ := h.source r' hr'
  exact ⟨r, hr, he.trans he'⟩

theorem updated_updateWhere {p : ClaimRow → Bool} {u : ClaimUpdate}
    (h : ∀ r ∈ t.rows, p r = true → Evolves r (u.apply r)) : Updated t (t.updateWhere p u) := by
  have hrow : ∀ r ∈ t.rows, Evolves r (updateRow p u r) := by
    intro r hr
    by_cases hp : p r = true
    · simpa [updateRow, hp] using h r hr hp
    · simpa [updateRow, hp] using Evolves.refl r
  constructor
  · intro r hr
    exact ⟨_, mem_updateWhere.mpr ⟨r, hr, rfl⟩, hrow r hr⟩
  · intro r' hr'
    obtain ⟨r, hr, rfl⟩ := mem_updateWhere.mp hr'
    exact ⟨r, hr, hrow r hr⟩

/-- A change of the one row that a claim was read from. -/
theorem updated_cas (hrow : row ∈ t.rows) {u : ClaimUpdate} (hu : Evolves row (u.apply row))
    (version generation : ℕ) :
    Updated t (t.updateWhere (casMatches row.claimId version generation) u) := by
  refine updated_updateWhere fun r hr hp => ?_
  simp only [casMatches, Bool.and_eq_true, decide_eq_true_eq] at hp
  rw [t.ident_inj hr hrow hp.1.1]
  exact hu

theorem aged_insert? (h : t.insert? row = some t') :
    Aged t t' := by
  intro r hr
  refine ⟨r, ?_, .refl r⟩
  rw [insert?_rows h]
  exact List.mem_append_left _ hr

/-! ### Steps that leave the tables of claims and dependencies alone -/

def SameTables (s s' : Session) : Prop :=
  s'.db.claims = s.db.claims ∧ s'.db.dependencies = s.db.dependencies

theorem SameTables.refl (s : Session) : SameTables s s := ⟨rfl, rfl⟩

theorem SameTables.trans (a b c : Session) (h : SameTables a b) (h' : SameTables b c) :
    SameTables a c :=
  ⟨h'.1.trans h.1, h'.2.trans h.2⟩

abbrev Quiet {α : Type} (x : ClaimM α) : Prop := Moves SameTables x

namespace Quiet

variable {α β : Type}

theorem pure (a : α) : Quiet (Pure.pure a) := Moves.pure SameTables.refl a

theorem throw (e : WorkstreamClaimError) : Quiet (MonadExcept.throw e : ClaimM α) :=
  Moves.throw SameTables.refl e

theorem get : Quiet MonadState.get := Moves.get SameTables.refl

theorem bind {x : ClaimM α} {f : α → ClaimM β} (hx : Quiet x) (hf : ∀ a, Quiet (f a)) :
    Quiet (x >>= f) :=
  Moves.bind SameTables.trans hx hf

theorem failIf (c : Prop) [Decidable c] (e : WorkstreamClaimError) :
    Quiet (Library.failIf c e) := by
  unfold Library.failIf
  split
  · exact throw e
  · exact pure ()

theorem liftExcept (x : Except WorkstreamClaimError α) : Quiet (liftExcept x) := by
  cases x with
  | ok a => exact pure a
  | error e => exact throw e

theorem nowMs : Quiet nowMs := fun _ => ⟨rfl, rfl⟩

theorem newUuid : Quiet newUuid := fun _ => ⟨rfl, rfl⟩

theorem leaseExpired (c : WorkstreamClaim) : Quiet (leaseExpired c) := by
  unfold Workstream.leaseExpired
  split
  · exact pure false
  · exact nowMs.bind fun _ => pure _

theorem leaseRefused (deadline : Option ℤ) : Quiet (leaseRefused deadline) := by
  cases deadline with
  | none => exact pure false
  | some deadline =>
    refine nowMs.bind fun now => ?_
    split
    · exact pure true
    · exact nowMs.bind fun _ => pure _

theorem validateLease (deadline : Option ℤ) : Quiet (validateLease deadline) := by
  cases deadline with
  | none => exact nowMs.bind fun _ => throw _
  | some deadline =>
    exact nowMs.bind fun _ => (failIf _ _).bind fun _ => pure _

theorem loadClaim (claimId : String) : Quiet (loadClaim claimId) := by
  refine get.bind fun s => ?_
  split
  · exact pure _
  · exact throw _

theorem checkTaskMember (dir : Directory) (input : NewWorkstreamClaim) :
    Quiet (checkTaskMember dir input) := by
  unfold Workstream.checkTaskMember
  split
  · exact failIf _ _
  · exact pure ()

theorem validateNewOwner (dir : Directory) (c : WorkstreamClaim) (owner : Option ClaimActor) :
    Quiet (validateNewOwner dir c owner) := by
  cases owner with
  | none => exact pure ()
  | some owner => exact liftExcept _

theorem transitionTarget (c : WorkstreamClaim) (cas : ClaimCas) :
    Quiet (transitionTarget c cas) := by
  unfold Workstream.transitionTarget
  split
  case h_1 => exact (validateLease _).bind fun _ => pure _
  case h_8 | h_9 =>
    split
    · exact throw _
    · exact (failIf _ _).bind fun _ => (validateLease _).bind fun _ => pure _
  case h_11 => exact throw _
  all_goals exact pure _

theorem insertClaimEvent (c : WorkstreamClaim) (actor : ClaimActor) (action : ClaimAction) :
    Quiet (insertClaimEvent c actor action) := by
  refine get.bind fun s => (failIf _ _).bind fun _ => newUuid.bind fun _ =>
    (failIf _ _).bind fun _ => ?_
  split
  · exact throw _
  · exact Moves.modify fun _ => ⟨rfl, rfl⟩

/-- The tables of a run that succeeds. -/
theorem of_ok {x : ClaimM α} (h : Quiet x) {a : α} (hx : x s = .ok a s') :
    SameTables s s' := by
  have := h s
  rwa [hx] at this

end Quiet

/-! ### Properties of the tables -/

abbrev Holds (P : ClaimTable → DependencyTable → Prop) (s : Session) : Prop :=
  P s.db.claims s.db.dependencies

abbrev anyError : WorkstreamClaimError → Session → Prop := fun _ _ => True

theorem Quiet.keeps {α : Type} {x : ClaimM α} (h : Quiet x)
    (P : ClaimTable → DependencyTable → Prop) :
    Triple (Holds P) x (fun _ => Holds P) (fun _ => Holds P) := by
  have hsame : ∀ s s', Holds P s → SameTables s s' → Holds P s' := by
    rintro s s' hs ⟨hclaims, hdependencies⟩
    rw [Holds, hclaims, hdependencies]
    exact hs
  exact Triple.of_moves h (fun s s' hs hm _ => hsame s s' hs hm) fun s s' hs hm _ =>
    hsame s s' hs hm

theorem Quiet.holds {α : Type} {x : ClaimM α} (h : Quiet x)
    (P : ClaimTable → DependencyTable → Prop) :
    Triple (Holds P) x (fun _ => Holds P) anyError :=
  (h.keeps P).conseq (fun _ hs => hs) (fun _ _ hs => hs) fun _ _ _ => trivial

/-- A transaction that fails leaves the database as it was. -/
theorem transaction_holds {α : Type} {x : ClaimM α} {P : ClaimTable → DependencyTable → Prop}
    (h : Triple (Holds P) x (fun _ => Holds P) anyError) :
    Triple (Holds P) (transaction x) (fun _ => Holds P) fun _ => Holds P := by
  intro s hs
  unfold transaction
  cases hx : x s with
  | ok a s' => exact h.of_ok hs hx
  | error e s' => exact hs

theorem transaction_error {α : Type} {x : ClaimM α} {e : WorkstreamClaimError}
    (h : transaction x s = .error e s') : s'.db = s.db := by
  obtain ⟨_, _, rfl⟩ := transaction_eq_error h
  rfl

end Codegg.Workstream
