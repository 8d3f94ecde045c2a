import Mathlib.Data.Fintype.Basic
import Mathlib.Data.List.FinRange
import Codegg.FileTools.UnifiedDiff

/-!
# Calls that change one file at the same time

A call reads the file, takes the writer permit, and writes. Only the steps under the permit
exclude each other. When each call that writes finds in the file what it read, all calls together
do what they would do one after another.
-/
namespace Codegg.FileTools

section Calls

/-- A call of one of the tools that change a file. -/
inductive FileCall
  | edit (oldString newString : Text)
  | replace (pattern replacement : Text) (isGlobal caseSensitive : Bool)
  | update (patch : Text)

/-- What the tools rest on: the strategies of `edit` after the exact match, and the replacement
of matches of a regular expression, where the expression is accepted and has a match. -/
structure Engine where
  laterStrategies : List (Text → Text → Text → Option Text)
  regexReplace : Text → Text → Bool → Bool → Text → Option Text

def exactMatch (content oldString newString : Text) : Option Text :=
  (splitOnce oldString content).map fun (before, after) => before ++ newString ++ after

def tryEdit (engine : Engine) (content oldString newString : Text) : Option Text :=
  (exactMatch :: engine.laterStrategies).findSome? fun strategy =>
    strategy content oldString newString

def maxFileSize : ℕ := 10 * 1024 * 1024

/-- What a call makes of the content of the file, if it succeeds. -/
def FileCall.apply (engine : Engine) (call : FileCall) (content : Text) : Option Text :=
  match call with
  | .edit oldString newString => tryEdit engine content oldString newString
  | .replace pattern replacement isGlobal caseSensitive =>
    if (String.ofList content).utf8ByteSize ≤ maxFileSize then
      engine.regexReplace pattern replacement isGlobal caseSensitive content
    else none
  | .update patch => (applyUnifiedDiff content patch).toOption

end Calls

section Steps

/-- How far a call is. -/
inductive Progress
  | started
  /-- The file was read, and a patch applied to what was read. -/
  | loaded (content : Text) (result : Option Text)
  /-- The call has the permit. -/
  | permitted (content : Text) (result : Option Text)
  /-- `replace` found the file as it had read it. -/
  | verified (content result : Text)
  /-- The file is truncated, and is to hold the result. -/
  | writing (result : Text)
  | written
  | succeeded
  | failed
  deriving DecidableEq

structure Shared (n : ℕ) where
  file : Text
  /-- The call that has the permit. -/
  holder : Option (Fin n)
  progress : Fin n → Progress

def Shared.start (n : ℕ) (file : Text) : Shared n where
  file
  holder := none
  progress _ := .started

def Shared.set {n : ℕ} (s : Shared n) (i : Fin n) (p : Progress) : Fin n → Progress :=
  Function.update s.progress i p

variable (engine : Engine) {n : ℕ} (calls : Fin n → FileCall)

/-- A step of one of the calls. -/
inductive CallStep : Shared n → Shared n → Prop
  | read (s : Shared n) (i : Fin n) (hat : s.progress i = .started)
    (htool : ∀ patch, calls i ≠ .update patch) :
    CallStep s { s with progress := s.set i (.loaded s.file none) }
  | readAndPatch (s : Shared n) (i : Fin n) (patch result : Text) (hat : s.progress i = .started)
    (htool : calls i = .update patch) (hresult : (calls i).apply engine s.file = some result) :
    CallStep s { s with progress := s.set i (.loaded s.file (some result)) }
  | acquire (s : Shared n) (i : Fin n) (content : Text) (result : Option Text)
    (hat : s.progress i = .loaded content result) (hfree : s.holder = none) :
    CallStep s { s with
      holder := some i
      progress := s.set i (.permitted content result) }
  /-- `edit` works on what it read before, and truncates the file. -/
  | truncateEdit (s : Shared n) (i : Fin n) (oldString newString content result : Text)
    (hat : s.progress i = .permitted content none) (htool : calls i = .edit oldString newString)
    (hresult : (calls i).apply engine content = some result) :
    CallStep s { s with file := [], progress := s.set i (.writing result) }
  | verify (s : Shared n) (i : Fin n) (pattern replacement : Text)
    (isGlobal caseSensitive : Bool) (content result : Text)
    (hat : s.progress i = .permitted content none)
    (htool : calls i = .replace pattern replacement isGlobal caseSensitive)
    (hsame : s.file = content) (hresult : (calls i).apply engine content = some result) :
    CallStep s { s with progress := s.set i (.verified content result) }
  /-- `replace` reads the file once more before it truncates it. -/
  | truncateReplace (s : Shared n) (i : Fin n) (content result : Text)
    (hat : s.progress i = .verified content result) (hsame : s.file = content) :
    CallStep s { s with file := [], progress := s.set i (.writing result) }
  | truncateUpdate (s : Shared n) (i : Fin n) (content result : Text)
    (hat : s.progress i = .permitted content (some result)) :
    CallStep s { s with file := [], progress := s.set i (.writing result) }
  | fill (s : Shared n) (i : Fin n) (result : Text) (hat : s.progress i = .writing result) :
    CallStep s { s with file := result, progress := s.set i .written }
  | settle (s : Shared n) (i : Fin n) (hat : s.progress i = .written) :
    CallStep s { s with holder := none, progress := s.set i .succeeded }
  /-- A refusal, an error or a check after the write. A write that fails may leave any text, and
  the permit is given back or stays parked. -/
  | fail (s : Shared n) (i : Fin n) (file : Text) (holder : Option (Fin n))
    (hat : s.progress i ≠ .succeeded)
    (hfile : file = s.file ∨ ∃ result, s.progress i = .writing result)
    (hholder : holder = s.holder ∨ s.holder = some i ∧ holder = none) :
    CallStep s { file, holder, progress := s.set i .failed }

/-- What a call read, while it has not written. -/
def Progress.read : Progress → Option Text
  | .loaded content _ | .permitted content _ | .verified content _ => some content
  | _ => none

/-- A call that starts to write finds in the file what it read. -/
def FreshWrites (s s' : Shared n) : Prop :=
  ∀ i content result, (s.progress i).read = some content → s'.progress i = .writing result →
    s.file = content

/-- The states that the calls can reach by steps that meet a condition. -/
inductive CallsReach (initial : Text) (condition : Shared n → Shared n → Prop) : Shared n → Prop
  | start : CallsReach initial condition (.start n initial)
  | step {s s' : Shared n} (hreach : CallsReach initial condition s)
    (hstep : CallStep engine calls s s') (hcondition : condition s s') :
    CallsReach initial condition s'

/-- The calls, one after another in some order, make the text of a text. -/
def Serializable (initial final : Text) : Prop :=
  ∃ order : List (Fin n), order.Perm (List.finRange n) ∧
    order.foldlM (fun content i => (calls i).apply engine content) initial = some final

end Steps

section Serial

variable {engine : Engine} {n : ℕ} {calls : Fin n → FileCall} {initial : Text} {s s' : Shared n}

@[simp] theorem Shared.set_self (s : Shared n) (i : Fin n) (p : Progress) : s.set i p i = p := by
  simp [Shared.set]

variable {i : Fin n}

theorem Shared.set_ne (s : Shared n) {j : Fin n} (p : Progress) (h : j ≠ i) :
    s.set i p j = s.progress j := by
  simp [Shared.set, h]

/-- Whether a call has started to write. -/
def Progress.hasWritten : Progress → Bool
  | .writing _ | .written | .succeeded => true
  | _ => false

/-- Whether a call is between taking the permit and settling it. -/
def Progress.holds : Progress → Bool
  | .permitted .. | .verified .. | .writing _ | .written => true
  | _ => false

/-- What holds while every write was fresh and no call failed: the calls that wrote, in the order
in which they did, make what the file holds or is about to hold. -/
structure InOrder (engine : Engine) (calls : Fin n → FileCall) (initial : Text) (order : List (Fin n))
    (s : Shared n) : Prop where
  nodup : order.Nodup
  wrote : ∀ i, i ∈ order ↔ (s.progress i).hasWritten = true
  holds : ∀ i, (s.progress i).holds = true → s.holder = some i
  planned : ∀ i content result, s.progress i = .loaded content (some result) ∨
    s.progress i = .permitted content (some result) ∨ s.progress i = .verified content result →
      (calls i).apply engine content = some result
  file : (∀ i result, s.progress i ≠ .writing result) →
    order.foldlM (fun content i => (calls i).apply engine content) initial = some s.file
  pending : ∀ i result, s.progress i = .writing result →
    order.foldlM (fun content i => (calls i).apply engine content) initial = some result

attribute [local simp] Progress.holds Shared.start Progress.hasWritten

theorem inOrder_start : InOrder engine calls initial [] (.start n initial) := by
  constructor <;> simp

variable {order : List (Fin n)}

/-- Only one call has the permit. -/
theorem InOrder.eq_of_holds (hin : InOrder engine calls initial order s) {j : Fin n}
    (hi : (s.progress i).holds = true) (hj : (s.progress j).holds = true) : i = j :=
  Option.some.inj ((hin.holds i hi).symm.trans (hin.holds j hj))

/-- A step that does not touch the file. -/
theorem InOrder.move (hin : InOrder engine calls initial order s) {p : Progress}
    {holder : Option (Fin n)} (hwritten : p.hasWritten = (s.progress i).hasWritten)
    (hold : ∀ result, s.progress i ≠ .writing result) (hnew : ∀ result, p ≠ .writing result)
    (hholder : ∀ j, (s.set i p j).holds = true → holder = some j)
    (hplanned : ∀ content result, p = .loaded content (some result) ∨
      p = .permitted content (some result) ∨ p = .verified content result →
        (calls i).apply engine content = some result) :
    InOrder engine calls initial order { s with holder, progress := s.set i p } where
  nodup := hin.nodup
  wrote j := by
    dsimp only
    rw [hin.wrote j]
    by_cases hj : j = i
    · subst hj
      rw [Shared.set_self, hwritten]
    · rw [Shared.set_ne s p hj]
  holds := hholder
  planned j content result h := by
    dsimp only at h
    by_cases hj : j = i
    · subst hj
      rw [Shared.set_self] at h
      exact hplanned content result h
    · rw [Shared.set_ne s p hj] at h
      exact hin.planned j content result h
  file h := by
    refine hin.file fun j result hj => ?_
    by_cases hji : j = i
    · subst hji
      exact hold result hj
    · exact h j result ((Shared.set_ne s p hji).trans hj)
  pending j result h := by
    dsimp only at h
    by_cases hj : j = i
    · subst hj
      rw [Shared.set_self] at h
      exact absurd h (hnew result)
    · rw [Shared.set_ne s p hj] at h
      exact hin.pending j result h

/-- A call with the permit starts to write what it makes of the file. -/
theorem InOrder.truncate (hin : InOrder engine calls initial order s) {result : Text}
    (hholds : (s.progress i).holds = true) (hnot : (s.progress i).hasWritten = false)
    (hresult : (calls i).apply engine s.file = some result) :
    InOrder engine calls initial (order ++ [i])
      { s with file := [], progress := s.set i (.writing result) } := by
  have hquiet : ∀ j r, s.progress j ≠ .writing r := by
    intro j r hj
    obtain rfl := hin.eq_of_holds hholds (j := j) (by simp [hj])
    simp [hj] at hnot
  have hfold : (order ++ [i]).foldlM (fun content j => (calls j).apply engine content) initial =
      some result := by
    rw [List.foldlM_append, hin.file hquiet]
    simpa using hresult
  have hnotMem : i ∉ order := by rw [hin.wrote, hnot]; decide
  refine ⟨hin.nodup.append (List.nodup_singleton i) (by simpa using hnotMem), ?_, ?_, ?_, ?_, ?_⟩
  · intro j
    by_cases hj : j = i
    · subst hj
      simp
    · simp [hj, hin.wrote, Shared.set_ne s _ hj]
  · intro j hj
    dsimp only at hj
    by_cases hji : j = i
    · subst hji
      exact hin.holds j hholds
    · rw [Shared.set_ne s _ hji] at hj
      exact hin.holds j hj
  · intro j content r h
    dsimp only at h
    by_cases hj : j = i
    · subst hj
      simp at h
    · rw [Shared.set_ne s _ hj] at h
      exact hin.planned j content r h
  · intro h
    exact absurd (Shared.set_self s i (.writing result)) (h i result)
  · intro j r h
    dsimp only at h
    by_cases hj : j = i
    · subst hj
      rw [Shared.set_self] at h
      cases h
      exact hfold
    · rw [Shared.set_ne s _ hj] at h
      exact absurd h (hquiet j r)

theorem InOrder.fill (hin : InOrder engine calls initial order s) {result : Text}
    (hat : s.progress i = .writing result) :
    InOrder engine calls initial order
      { s with file := result, progress := s.set i .written } where
  nodup := hin.nodup
  wrote j := by
    dsimp only
    rw [hin.wrote j]
    by_cases hj : j = i
    · subst hj
      simp [hat]
    · rw [Shared.set_ne s _ hj]
  holds j hj := by
    dsimp only at hj
    by_cases hji : j = i
    · subst hji
      exact hin.holds j (by simp [hat])
    · rw [Shared.set_ne s _ hji] at hj
      exact hin.holds j hj
  planned j content r h := by
    dsimp only at h
    by_cases hj : j = i
    · subst hj
      simp at h
    · rw [Shared.set_ne s _ hj] at h
      exact hin.planned j content r h
  file _ := hin.pending i result hat
  pending j r h := by
    dsimp only at h
    by_cases hj : j = i
    · subst hj
      simp at h
    · rw [Shared.set_ne s _ hj] at h
      have heq := hin.eq_of_holds (i := i) (j := j) (by simp [hat])
        (by simp [h])
      exact absurd heq.symm hj

/-- The other calls keep the permit where it is. -/
theorem InOrder.holds_set (hin : InOrder engine calls initial order s) {p : Progress}
    (hp : p.holds = true → s.holder = some i) (j : Fin n) (hj : (s.set i p j).holds = true) :
    s.holder = some j := by
  by_cases hji : j = i
  · subst hji
    rw [Shared.set_self] at hj
    exact hp hj
  · rw [Shared.set_ne s _ hji] at hj
    exact hin.holds j hj

theorem InOrder.step (hin : InOrder engine calls initial order s)
    (hstep : CallStep engine calls s s') (hfresh : FreshWrites s s') :
    (∃ i, s'.progress i = .failed) ∨ ∃ order', InOrder engine calls initial order' s' := by
  cases hstep with
  | read i hat htool =>
    refine .inr ⟨order, hin.move ?_ ?_ ?_ (hin.holds_set ?_) ?_⟩ <;>
      simp [hat]
  | readAndPatch i patch result hat htool hresult =>
    refine .inr ⟨order, hin.move ?_ ?_ ?_ (hin.holds_set ?_) ?_⟩ <;>
      simp [hat]
    exact hresult
  | acquire i content result hat hfree =>
    refine .inr ⟨order, hin.move ?_ ?_ ?_ ?_ ?_⟩
    · simp [hat]
    · simp [hat]
    · simp
    · intro j hj
      by_cases hji : j = i
      · rw [hji]
      · rw [Shared.set_ne s _ hji] at hj
        exact absurd (hin.holds j hj) (by simp [hfree])
    · rintro content' result' (h | h | h)
      · cases h
      · cases h
        exact hin.planned i content result' (.inl hat)
      · cases h
  | truncateEdit i oldString newString content result hat htool hresult =>
    have hsame := hfresh i content result (by simp [hat, Progress.read]) (by simp)
    refine .inr ⟨order ++ [i], hin.truncate ?_ ?_ ?_⟩
    · simp [hat]
    · simp [hat]
    · rw [hsame]
      exact hresult
  | verify i pattern replacement isGlobal caseSensitive content result hat htool hsame hresult =>
    refine .inr ⟨order, hin.move ?_ ?_ ?_ (hin.holds_set ?_) ?_⟩
    · simp [hat]
    · simp [hat]
    · simp
    · exact fun _ => hin.holds i (by simp [hat])
    · rintro content' result' (h | h | h)
      · cases h
      · cases h
      · cases h
        exact hresult
  | truncateReplace i content result hat hsame =>
    refine .inr ⟨order ++ [i], hin.truncate ?_ ?_ ?_⟩
    · simp [hat]
    · simp [hat]
    · rw [hsame]
      exact hin.planned i content result (.inr (.inr hat))
  | truncateUpdate i content result hat =>
    have hsame := hfresh i content result (by simp [hat, Progress.read]) (by simp)
    refine .inr ⟨order ++ [i], hin.truncate ?_ ?_ ?_⟩
    · simp [hat]
    · simp [hat]
    · rw [hsame]
      exact hin.planned i content result (.inr (.inl hat))
  | fill i result hat => exact .inr ⟨order, hin.fill hat⟩
  | settle i hat =>
    refine .inr ⟨order, hin.move ?_ ?_ ?_ ?_ ?_⟩
    · simp [hat]
    · simp [hat]
    · simp
    · intro j hj
      by_cases hji : j = i
      · subst hji
        simp at hj
      · rw [Shared.set_ne s _ hji] at hj
        have heq := hin.eq_of_holds (i := i) (j := j) (by simp [hat]) hj
        exact absurd heq.symm hji
    · simp
  | fail i file holder hat hfile hholder => exact .inl ⟨i, by simp⟩

/-- A call that failed does not take a step any more. -/
theorem failed_step (hi : s.progress i = .failed) (hstep : CallStep engine calls s s') :
    s'.progress i = .failed := by
  cases hstep with
  | fail j file holder hat hfile hholder =>
    by_cases hij : i = j
    · rw [hij]
      simp
    · exact (Shared.set_ne s _ hij).trans hi
  | _ =>
    refine (Shared.set_ne s _ ?_).trans hi
    rintro rfl
    simp_all

/-- In every run in which each write is fresh, calls that all succeed make of the file what they
make of it one after another. -/
theorem serializable_of_fresh (engine : Engine) (n : ℕ) (calls : Fin n → FileCall)
    (initial : Text) (s : Shared n) (hreach : CallsReach engine calls initial FreshWrites s)
    (hall : ∀ i, s.progress i = .succeeded) : Serializable engine calls initial s.file := by
  have hinv : (∃ i, s.progress i = .failed) ∨ ∃ order, InOrder engine calls initial order s := by
    clear hall
    induction hreach with
    | start => exact .inr ⟨[], inOrder_start⟩
    | step _ hstep hfresh ih =>
      rcases ih with ⟨i, hi⟩ | ⟨order, hin⟩
      · exact .inl ⟨i, failed_step hi hstep⟩
      · exact hin.step hstep hfresh
  rcases hinv with ⟨i, hi⟩ | ⟨order, hin⟩
  · rw [hall i] at hi
    cases hi
  · have hmem : ∀ i, i ∈ order := fun i => by simp [hin.wrote, hall i, Progress.hasWritten]
    refine ⟨order, ?_, hin.file fun i result hi => ?_⟩
    · rw [List.perm_ext_iff_of_nodup hin.nodup (List.nodup_finRange n)]
      simp [hmem]
    · rw [hall i] at hi
      cases hi

/-- No strategy but the exact match, and no regular expressions. -/
def exactOnly : Engine := ⟨[], fun _ _ _ _ _ => none⟩

/-- Two edits of different places. -/
def twoEdits (i : Fin 2) : FileCall := if i = 0 then .edit ['a'] ['x'] else .edit ['b'] ['y']

/-- No call writes in the next state but one whose content is known. -/
theorem freshWrites_of (hother : ∀ j ≠ i, ∀ r, s'.progress j ≠ .writing r)
    (hthis : ∀ content r, (s.progress i).read = some content → s'.progress i = .writing r →
      s.file = content) : FreshWrites s s' := by
  intro j content r hread hwrite
  by_cases hj : j = i
  · subst hj
    exact hthis content r hread hwrite
  · exact absurd hwrite (hother j hj r)

/-- An edit that is not interleaved with others is fresh. -/
theorem CallsReach.edit {oldString newString : Text}
    (hreach : CallsReach engine calls initial FreshWrites s) (i : Fin n) (result : Text)
    (hfree : s.holder = none) (hquiet : ∀ j r, s.progress j ≠ .writing r) (hat : s.progress i = .started)
    (htool : calls i = .edit oldString newString)
    (hresult : (calls i).apply engine s.file = some result) :
    CallsReach engine calls initial FreshWrites
      { file := result, holder := none, progress := s.set i .succeeded } := by
  have hset (p q : Progress) (file : Text) (holder : Option (Fin n)) :
      Shared.set ⟨file, holder, s.set i p⟩ i q = s.set i q := by
    simp [Shared.set]
  have hother (p : Progress) : ∀ j ≠ i, ∀ r, s.set i p j ≠ .writing r := fun j hj r => by
    rw [Shared.set_ne s p hj]
    exact hquiet j r
  have hloaded := hreach.step (.read s i hat (by simp [htool]))
    (freshWrites_of (hother _) (by simp))
  have hpermitted := hloaded.step (.acquire _ i s.file none (by simp) hfree)
    (freshWrites_of (by rw [hset]; exact hother _) (by simp))
  rw [hset] at hpermitted
  have hwriting := hpermitted.step
    (.truncateEdit _ i oldString newString s.file result (by simp) htool hresult)
    (freshWrites_of (by rw [hset]; exact hother _) (by simp [Progress.read]))
  rw [hset] at hwriting
  have hwritten := hwriting.step (.fill _ i result (by simp))
    (freshWrites_of (by rw [hset]; exact hother _) (by simp))
  rw [hset] at hwritten
  have hsettled := hwritten.step (.settle _ i (by simp))
    (freshWrites_of (by rw [hset]; exact hother _) (by simp))
  rw [hset] at hsettled
  exact hsettled

/-- One edit after the other. -/
theorem twoEdits_one_after_another :
    ∃ s, CallsReach exactOnly twoEdits ['a', 'b'] FreshWrites s ∧
      (∀ i, s.progress i = .succeeded) ∧ s.file = ['x', 'y'] := by
  have hstart : CallsReach exactOnly twoEdits ['a', 'b'] FreshWrites (.start 2 ['a', 'b']) := .start
  have hfirst := hstart.edit 0 ['x', 'b'] rfl (by simp) rfl rfl rfl
  have hsecond := hfirst.edit 1 ['x', 'y'] rfl (by simp [Shared.set]) rfl rfl rfl
  exact ⟨_, hsecond, by decide, rfl⟩

theorem serializable_of_fresh_twoEdits : Serializable exactOnly twoEdits ['a', 'b'] ['x', 'y'] := by
  obtain ⟨s, hreach, hall, hfile⟩ := twoEdits_one_after_another
  have h := serializable_of_fresh exactOnly 2 twoEdits ['a', 'b'] s hreach hall
  rwa [hfile] at h

/-- Both edits read the file before one of them writes. -/
theorem twoEdits_interleaved :
    ∃ s, CallsReach exactOnly twoEdits ['a', 'b'] (fun _ _ => True) s ∧
      (∀ i, s.progress i = .succeeded) ∧ s.file = ['a', 'y'] := by
  have h₁ : CallsReach exactOnly twoEdits ['a', 'b'] (fun _ _ => True) _ :=
    CallsReach.start.step (.read _ 0 rfl (by simp [twoEdits])) trivial
  have h₂ := h₁.step (.read _ 1 rfl (by simp [twoEdits])) trivial
  have h₃ := h₂.step (.acquire _ 0 ['a', 'b'] none rfl rfl) trivial
  have h₄ := h₃.step (.truncateEdit _ 0 ['a'] ['x'] ['a', 'b'] ['x', 'b'] rfl rfl rfl) trivial
  have h₅ := h₄.step (.fill _ 0 ['x', 'b'] rfl) trivial
  have h₆ := h₅.step (.settle _ 0 rfl) trivial
  have h₇ := h₆.step (.acquire _ 1 ['a', 'b'] none rfl rfl) trivial
  have h₈ := h₇.step (.truncateEdit _ 1 ['b'] ['y'] ['a', 'b'] ['a', 'y'] rfl rfl rfl) trivial
  have h₉ := h₈.step (.fill _ 1 ['a', 'y'] rfl) trivial
  have h₁₀ := h₉.step (.settle _ 1 rfl) trivial
  exact ⟨_, h₁₀, by decide, rfl⟩

/-- The second edit overwrites the first. -/
theorem edit_lost :
    ¬∀ (engine : Engine) (n : ℕ) (calls : Fin n → FileCall) (initial : Text) (s : Shared n),
      CallsReach engine calls initial (fun _ _ => True) s →
        (∀ i, s.progress i = .succeeded) → Serializable engine calls initial s.file := by
  intro hall
  obtain ⟨s, hreach, hdone, hfile⟩ := twoEdits_interleaved
  obtain ⟨order, hperm, hfold⟩ := hall exactOnly 2 twoEdits ['a', 'b'] s hreach hdone
  rw [hfile] at hfold
  obtain ⟨i, j, rfl⟩ := List.length_eq_two.mp (hperm.length_eq.trans (List.length_finRange))
  have hne : i ≠ j := by simpa using hperm.nodup_iff.mpr (List.nodup_finRange 2)
  have hboth : ∀ i j : Fin 2, i ≠ j →
      [i, j].foldlM (fun content i => (twoEdits i).apply exactOnly content) ['a', 'b'] ≠
        some ['a', 'y'] := by decide
  exact hboth i j hne hfold

end Serial

end Codegg.FileTools
