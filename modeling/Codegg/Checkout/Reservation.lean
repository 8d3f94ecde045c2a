import Codegg.Checkout.Identity

/-!
# The reservation of a checkout

A path belongs to the managed checkout with the deepest root that contains it. Where the identities
of the paths are the places they name, no spelling of a path of a reserved checkout is taken for
one that is not reserved.
-/
namespace Codegg.Checkout

open Codegg.Library

open FileTools (Text Machine parsePath fromRoot)

section Lookup

structure WorktreeRecord where
  worktreeId : String
  path : Text
  removed : Bool
  ownerRunId : Option String
  deriving DecidableEq

structure AgentRunGroup where
  groupId : String
  memberRunIds : List String
  terminal : Bool

structure CheckoutReservationClaim where
  worktreeId : String
  groupId : Option String
  ownerRunId : String
  memberRunIds : List String
  deriving DecidableEq

inductive CheckoutReservation
  | unreserved
  | reserved (claim : CheckoutReservationClaim)
  deriving DecidableEq

inductive CheckoutReservationError
  | lookup (message : String)
  | relativePath (path : String)
  deriving DecidableEq

/-- What the durable stores answer. -/
structure Stores where
  /-- In the order of their creation. -/
  worktrees : Except String (List WorktreeRecord)
  hasReadOnlyLease : String → Except String Bool
  groupsForRun : Option (String → Except String (List AgentRunGroup))

def lookupError {α : Type} (answer : Except String α) : Except CheckoutReservationError α :=
  answer.mapError .lookup

def Stores.listAuthorityCandidates (s : Stores) : Except String (List WorktreeRecord) :=
  s.worktrees.map (List.filter fun record => !record.removed)

def canonicalIdentityAbsolute (m : Machine) (path : Text) :
    Except CheckoutReservationError (List (Component Text)) :=
  let spelling := parsePath path
  if spelling.isAbsolute then .ok (canonicalIdentity m spelling)
  else .error (.relativePath (String.ofList path))

/-- The root directory counts as a component. -/
def depth (root : List (Component Text)) : ℕ := root.length + 1

def considerRecord (m : Machine) (target : List (Component Text))
    (best : Option (ℕ × WorktreeRecord)) (record : WorktreeRecord) :
    Except CheckoutReservationError (Option (ℕ × WorktreeRecord)) := do
  let root ← canonicalIdentityAbsolute m record.path
  if root <+: target then
    match best with
    | none => return some (depth root, record)
    | some (bestDepth, _) => if bestDepth < depth root then return some (depth root, record) else return best
  else return best

def recordForPath (m : Machine) (s : Stores) (path : Text) :
    Except CheckoutReservationError (Option WorktreeRecord) := do
  let target ← canonicalIdentityAbsolute m path
  let records ← lookupError s.listAuthorityCandidates
  let best ← records.foldlM (considerRecord m target) none
  return best.map Prod.snd

def reservationForRecord (s : Stores) (record : WorktreeRecord) :
    Except CheckoutReservationError CheckoutReservation :=
  match record.ownerRunId with
  | none => .ok .unreserved
  | some ownerRunId => do
    if ← lookupError (s.hasReadOnlyLease record.worktreeId) then
      return .reserved ⟨record.worktreeId, none, ownerRunId, [ownerRunId]⟩
    else
      match s.groupsForRun with
      | none => return .unreserved
      | some groupsForRun =>
        let owned ← lookupError (groupsForRun ownerRunId)
        -- Only a live group reserves the checkout.
        match owned.find? fun group => !group.terminal with
        | none => return .unreserved
        | some group =>
          let memberRunIds := if group.memberRunIds.contains ownerRunId then group.memberRunIds
            else group.memberRunIds ++ [ownerRunId]
          return .reserved ⟨record.worktreeId, some group.groupId, ownerRunId, memberRunIds⟩

def reservationForPath (m : Machine) (s : Stores) (path : Text) :
    Except CheckoutReservationError CheckoutReservation := do
  match ← recordForPath m s path with
  | none => return .unreserved
  | some record => reservationForRecord s record

end Lookup

variable {place : WorktreeRecord → List Text}

section Containment

/-- An absolute path that leads to a place, with that place as its identity. -/
structure Placed (m : Machine) (path : Text) (loc : List Text) : Prop where
  absolute : (parsePath path).isAbsolute = true
  locates : m.locate (parsePath path) = some loc
  /-- Folding the path leaves its place as it is. -/
  folds : m.locate ⟨true, lexicalNormalize (parsePath path).components⟩ = some loc
  noBrokenLink : NoBrokenLink m (lexicalNormalize (parsePath path).components)

/-- The answer is a checkout that contains a place, and no checkout deeper down does. -/
def IsDeepest (records : List WorktreeRecord) (place : WorktreeRecord → List Text) (loc : List Text) :
    Option WorktreeRecord → Prop
  | none => ∀ record ∈ records, ¬place record <+: loc
  | some record => record ∈ records ∧ place record <+: loc ∧
    ∀ other ∈ records, place other <+: loc → place other <+: place record

variable {m : Machine} {s : Stores} {path : Text} {loc : List Text}

theorem Placed.identity (h : Placed m path loc) :
    canonicalIdentityAbsolute m path = .ok (loc.map .normal) := by
  rw [canonicalIdentityAbsolute, if_pos h.absolute, (canonicalIdentity_iff h.absolute h.locates).2 ⟨h.folds, h.noBrokenLink⟩]

theorem map_normal_prefix_iff {root loc : List Text} :
    root.map Component.normal <+: loc.map Component.normal ↔ root <+: loc := by
  constructor
  · intro h
    rw [List.prefix_iff_eq_take, List.length_map, ← List.map_take] at h
    rw [List.prefix_iff_eq_take]
    exact List.map_injective_iff.2 (fun _ _ h => Component.normal.inj h) h
  · exact fun h => h.map _

/-- The best record so far is the deepest of those that were looked at. -/
def Considered (records : List WorktreeRecord) (place : WorktreeRecord → List Text) (loc : List Text)
    (best : Option (ℕ × WorktreeRecord)) : Prop :=
  IsDeepest records place loc (best.map Prod.snd) ∧
    ∀ bestDepth record, best = some (bestDepth, record) → bestDepth = (place record).length + 1

theorem considerRecord_step {seen : List WorktreeRecord} {best : Option (ℕ × WorktreeRecord)}
    {record : WorktreeRecord} (hrecord : Placed m record.path (place record))
    (hbest : Considered seen place loc best) :
    ∃ next, considerRecord m (loc.map .normal) best record = .ok next ∧
      Considered (seen ++ [record]) place loc next := by
  obtain ⟨hdeepest, hdepth⟩ := hbest
  unfold considerRecord
  rw [hrecord.identity]
  simp only [bind, Except.bind, map_normal_prefix_iff]
  by_cases hinside : place record <+: loc
  · rw [if_pos hinside]
    cases best with
    | none =>
      refine ⟨_, rfl, ⟨by simp, hinside, ?_⟩, ?_⟩
      · intro other hother hcontains
        rw [List.mem_append, List.mem_singleton] at hother
        obtain hother | rfl := hother
        · exact absurd hcontains (hdeepest other hother)
        · exact List.prefix_refl _
      · simp [depth]
    | some found =>
      obtain ⟨bestDepth, found⟩ := found
      obtain ⟨hfound, hcontains, hall⟩ := hdeepest
      have hbestDepth : bestDepth = (place found).length + 1 := hdepth _ _ rfl
      by_cases hdeeper : bestDepth < depth ((place record).map Component.normal)
      · dsimp only
        rw [if_pos hdeeper]
        have hbelow : place found <+: place record := by
          refine List.prefix_of_prefix_length_le hcontains hinside ?_
          simp only [depth, List.length_map] at hdeeper
          omega
        refine ⟨_, rfl, ⟨by simp, hinside, ?_⟩, ?_⟩
        · intro other hother hother'
          rw [List.mem_append, List.mem_singleton] at hother
          obtain hother | rfl := hother
          · exact (hall other hother hother').trans hbelow
          · exact List.prefix_refl _
        · simp [depth]
      · dsimp only
        rw [if_neg hdeeper]
        refine ⟨_, rfl, ⟨by simp [hfound], hcontains, ?_⟩, hdepth⟩
        intro other hother hother'
        rw [List.mem_append, List.mem_singleton] at hother
        obtain hother | rfl := hother
        · exact hall other hother hother'
        · refine List.prefix_of_prefix_length_le hinside hcontains ?_
          simp only [depth, List.length_map] at hdeeper
          show (place other).length ≤ (place found).length
          omega
  · rw [if_neg hinside]
    refine ⟨_, rfl, ?_, hdepth⟩
    cases best with
    | none =>
      intro other hother
      rw [List.mem_append, List.mem_singleton] at hother
      obtain hother | rfl := hother
      · exact hdeepest other hother
      · exact hinside
    | some found =>
      obtain ⟨hfound, hcontains, hall⟩ := hdeepest
      refine ⟨by simp [hfound], hcontains, fun other hother hother' => ?_⟩
      rw [List.mem_append, List.mem_singleton] at hother
      obtain hother | rfl := hother
      · exact hall other hother hother'
      · exact absurd hother' hinside

theorem considerRecords_run {seen rest : List WorktreeRecord} {best : Option (ℕ × WorktreeRecord)}
    (hrest : ∀ record ∈ rest, Placed m record.path (place record))
    (hbest : Considered seen place loc best) :
    ∃ last, rest.foldlM (considerRecord m (loc.map .normal)) best = .ok last ∧
      Considered (seen ++ rest) place loc last := by
  induction rest generalizing seen best with
  | nil => exact ⟨best, rfl, by simpa using hbest⟩
  | cons record rest ih =>
    obtain ⟨next, hnext, hconsidered⟩ := considerRecord_step (hrest record (by simp)) hbest
    obtain ⟨last, hlast, hall⟩ := ih (fun other hother => hrest other (by simp [hother])) hconsidered
    refine ⟨last, ?_, by simpa using hall⟩
    rw [List.foldlM_cons, hnext]
    exact hlast

/-- Where the identities are places, the answer is the deepest checkout that contains the path. -/
theorem recordForPath_deepest (hpath : Placed m path loc) {records : List WorktreeRecord}
    (hrecords : s.listAuthorityCandidates = .ok records)
    (hplaces : ∀ record ∈ records, Placed m record.path (place record)) :
    ∃ answer, recordForPath m s path = .ok answer ∧ IsDeepest records place loc answer := by
  have hstart : Considered [] place loc none := ⟨by simp [IsDeepest], by simp⟩
  obtain ⟨last, hlast, hall⟩ := considerRecords_run hplaces hstart
  refine ⟨last.map Prod.snd, ?_, hall.1⟩
  unfold recordForPath
  rw [hpath.identity, hrecords]
  simp only [bind, Except.bind, lookupError, Except.mapError, hlast]
  rfl

end Containment

section Spellings

/-- The identity of a path is the place that a write through it reaches exactly if folding leaves
the place as it is and no link is broken. Where this holds of a path and of the paths of all
checkouts, the reservation is that of the deepest checkout that contains the place. -/
theorem checkout_identity_iff (m : Machine) (path : Text) (loc : List Text) :
    ((parsePath path).isAbsolute = true → m.locate (parsePath path) = some loc →
      (canonicalIdentityAbsolute m path = .ok (loc.map .normal) ↔ Placed m path loc)) ∧
    ∀ (s : Stores) (records : List WorktreeRecord) (place : WorktreeRecord → List Text),
      Placed m path loc → s.listAuthorityCandidates = .ok records →
      (∀ record ∈ records, Placed m record.path (place record)) →
      ∃ answer, recordForPath m s path = .ok answer ∧ IsDeepest records place loc answer ∧
        reservationForPath m s path =
          (match answer with
          | none => .ok .unreserved
          | some record => reservationForRecord s record) := by
  constructor
  · intro habsolute hloc
    rw [canonicalIdentityAbsolute, if_pos habsolute, Except.ok.injEq,
      canonicalIdentity_iff habsolute hloc]
    exact ⟨fun h => ⟨habsolute, hloc, h.1, h.2⟩, fun h => ⟨h.folds, h.noBrokenLink⟩⟩
  · intro s records place hpath hrecords hplaces
    obtain ⟨answer, hanswer, hdeepest⟩ := recordForPath_deepest hpath hrecords hplaces
    refine ⟨answer, hanswer, hdeepest, ?_⟩
    unfold reservationForPath
    rw [hanswer]
    cases answer <;> rfl

/-- A link next to a checkout leads into it. -/
def linkedMachine : Machine where
  tree := FileTree.ofEntries [(["checkout".toList], .dir), (["checkout".toList, "src".toList], .dir),
    (["other".toList], .dir),
    (["other".toList, "link".toList], .link (parsePath "/checkout/src".toList))] (by decide)
  maxLinks := 40
  cwd := []
  cwd_dir := rfl
  own_names := FileTree.forall_ofEntries (by decide)

def reservedStores : Stores where
  worktrees := .ok [⟨"w", "/checkout".toList, false, some "run"⟩]
  hasReadOnlyLease _ := .ok true
  groupsForRun := none

/-- A path over the link is answered as reserved. -/
theorem checkout_identity_iff_link :
    (canonicalIdentityAbsolute linkedMachine "/other/link/f".toList =
        .ok (["checkout".toList, "src".toList, "f".toList].map .normal) ↔
      Placed linkedMachine "/other/link/f".toList
        ["checkout".toList, "src".toList, "f".toList]) ∧
    reservationForPath linkedMachine reservedStores "/other/link/f".toList =
      .ok (.reserved ⟨"w", none, "run", ["run"]⟩) := by
  obtain ⟨hidentity, hreserved⟩ := checkout_identity_iff linkedMachine "/other/link/f".toList
    ["checkout".toList, "src".toList, "f".toList]
  have hiff := hidentity (by decide) (by decide +kernel)
  have hcheckout := (checkout_identity_iff linkedMachine "/checkout".toList ["checkout".toList]).1
    (by decide) (by decide +kernel)
  obtain ⟨answer, -, hdeepest, hanswer⟩ := hreserved reservedStores
    [⟨"w", "/checkout".toList, false, some "run"⟩] (fun _ => ["checkout".toList])
    (hiff.mp (by decide +kernel)) rfl
    (by simpa using hcheckout.mp (by decide +kernel))
  refine ⟨hiff, hanswer.trans ?_⟩
  cases answer with
  | none => exact absurd (hdeepest _ (List.mem_singleton_self _)) (by decide)
  | some record =>
    obtain ⟨hmem, -⟩ := hdeepest
    rw [List.mem_singleton.mp hmem]
    rfl

/-- The parent of a link is taken from its name: a path that leads into a reserved checkout is
answered as not reserved. -/
theorem spelling_unreserved :
    linkedMachine.locate (parsePath "/other/link/../f".toList) =
      some ["checkout".toList, "f".toList] ∧
    canonicalIdentityAbsolute linkedMachine "/other/link/../f".toList =
      .ok [.normal "other".toList, .normal "f".toList] ∧
    reservationForPath linkedMachine reservedStores "/other/link/../f".toList = .ok .unreserved ∧
    reservationForPath linkedMachine reservedStores "/checkout/f".toList =
      .ok (.reserved ⟨"w", none, "run", ["run"]⟩) := by
  refine ⟨?_, ?_, ?_, ?_⟩ <;> decide +kernel

end Spellings

end Codegg.Checkout
