import Codegg.Documents.Atomicity
import Codegg.Documents.DiskBase
import Codegg.Library.RecentWindow

/-!
# Changes sent again

A change that went into the text is entered in the table of the document, so that it is
recognised when it comes again. The table has room for so many changes; a full one drops the
entry its map yields first, which need not be the oldest. The changes accepted last are
all recognised exactly as long as it is.
-/
namespace Codegg.Documents

open Codegg.Library OpenDocument EditedDocument

structure AcceptedChange where
  changeId : String
  transaction : DocumentTransactionDto
  revision : ℕ
  deriving Repr, DecidableEq

def AcceptedChange.entry (dg : Digests) (c : AcceptedChange) : String × String × ℕ :=
  (c.changeId, dg.payload c.transaction, c.revision)

theorem remember_eq (recent : List (String × String × ℕ)) (victim revision : ℕ)
    (changeId digest : String) :
    remember recent victim changeId digest revision =
      pushEvicting maxDedupe victim recent (changeId, digest, revision) := rfl

variable {c : AcceptedChange} {log : List AcceptedChange} {n : ℕ}

namespace OpenDocument

variable {dg : Digests} {turn : DaemonTurn} {doc doc' : OpenDocument} {client : String}
  {r : ChangeRequest} {revision : ℕ}

/-- A change that is answered with a revision has been seen, or goes into the table now. -/
structure Entered (dg : Digests) (victim : ℕ) (r : ChangeRequest) (revision : ℕ)
    (doc doc' : OpenDocument) : Prop where
  unseen : doc.recent.lookup r.changeId = none
  recent : doc'.recent =
    remember doc.recent victim r.changeId (dg.payload r.transaction) revision
  writer : doc'.writer = doc.writer

theorem change_entered (h : doc.change dg turn client r = .ok (revision, doc')) :
    (doc.recent.lookup r.changeId = some (dg.payload r.transaction, revision) ∧ doc' = doc) ∨
      Entered dg turn.victim r revision doc doc' := by
  rw [change] at h
  by_cases hlease : doc.holdsLease client r.writerLease = false
  · rw [if_pos hlease] at h
    cases h
  cases hseen : doc.recent.lookup r.changeId with
  | some seen =>
    simp only [hseen] at h
    split_ifs at h with hdigest
    cases h
    rw [← hdigest]
    exact .inl ⟨rfl, rfl⟩
  | none =>
    simp only [hseen] at h
    split_ifs at h
    split at h
    · cases h
    · cases h
      exact .inr ⟨hseen, rfl, rfl⟩

/-- An identity that the text may be changed under. -/
def ValidId (changeId : String) : Prop := ¬(changeId = "" ∨ 128 < changeId.utf8ByteSize)

instance (changeId : String) : Decidable (ValidId changeId) := inferInstanceAs (Decidable (¬_))

theorem changeIn_valid (h : doc.changeIn client dg turn r = .ok (revision, doc')) :
    ValidId r.changeId ∧ doc.holdsLease client r.writerLease = true := by
  refine ⟨fun hid => ?_, (change_cases (changeIn_eq_ok h)).2⟩
  rw [changeIn, if_pos hid] at h
  cases h

/-- The identity of an answered change is in the table. -/
theorem changeId_mem_recent (h : doc.changeIn client dg turn r = .ok (revision, doc')) :
    r.changeId ∈ doc'.recent.map Prod.fst := by
  rcases change_entered (changeIn_eq_ok h) with ⟨hseen, rfl⟩ | hentered
  · exact List.mem_map_of_mem (mem_of_lookup_eq_some hseen)
  · rw [hentered.recent]
    exact List.mem_map_of_mem (self_mem_remember doc.recent _ _ _ _)

/-- A change that comes again, whoever holds the lease by then, gets the revision it got and
is not applied again. -/
def Recognises (dg : Digests) (doc : OpenDocument) (c : AcceptedChange) : Prop :=
  ∀ (turn : DaemonTurn) (client : String) (r : ChangeRequest),
    r.changeId = c.changeId → r.transaction = c.transaction → r.projectId = doc.projectId →
    doc.holdsLease client r.writerLease = true →
    doc.changeIn client dg turn r = .ok (c.revision, doc)

theorem recognises_of_lookup (hid : ValidId c.changeId)
    (hseen : doc.recent.lookup c.changeId = some (dg.payload c.transaction, c.revision)) :
    doc.Recognises dg c := by
  intro turn client r hchangeId htransaction hproject hlease
  rw [← hchangeId] at hid hseen
  rw [← htransaction] at hseen
  have hheld : ¬doc.holdsLease client r.writerLease = false := by simp [hlease]
  rw [changeIn, if_neg hid, if_neg (not_not.mpr hproject.symm), change, if_neg hheld, hseen]
  exact if_pos rfl

/-- A change that is not in the table is not recognised by a document that has a writer. -/
theorem not_recognises_of_not_mem {writer : String × String} (hwriter : doc.writer = some writer)
    (hlost : c.changeId ∉ doc.recent.map Prod.fst) :
    ¬doc.Recognises dg c := by
  intro hrecognises
  have hheld : doc.holdsLease writer.1 writer.2 = true := by simp [holdsLease, hwriter]
  have hok := hrecognises ⟨⟨0, 0, 0⟩, 0, none, false, "", ""⟩ writer.1
    ⟨doc.projectId, doc.id, writer.2, 0, c.changeId, c.transaction⟩ rfl rfl rfl hheld
  exact hlost (changeId_mem_recent hok)

end OpenDocument

namespace EditedDocument

variable (dg : Digests)

/-- The change that a step brings into the text. -/
def accepts (s : EditedDocument) : DocumentAction → List AcceptedChange
  | .change turn client r =>
    match s.doc.recent.lookup r.changeId, s.doc.changeIn client dg turn r with
    | none, .ok (revision, _) => [⟨r.changeId, r.transaction, revision⟩]
    | _, _ => []
  | _ => []

/-- The changes of a run that went into the text, oldest first. -/
def accepted (s : EditedDocument) : List DocumentAction → List AcceptedChange
  | [] => []
  | action :: rest => s.accepts dg action ++ (s.step dg action).accepted rest

/-- The changes accepted last are all recognised. -/
def RetriesRecognised (s : EditedDocument) (actions : List DocumentAction) : Prop :=
  ∀ c ∈ (s.accepted dg actions).rtake maxDedupe, (s.run dg actions).doc.Recognises dg c

/-- A step that accepts a change into a full table drops its oldest entry. -/
def EvictsOldest (s : EditedDocument) : DocumentAction → Prop
  | .change turn client r => s.accepts dg (.change turn client r) ≠ [] →
    maxDedupe ≤ s.doc.recent.length → turn.victim % s.doc.recent.length = 0
  | _ => True

variable {dg} {s : EditedDocument}

theorem accepted_concat (s : EditedDocument) (actions : List DocumentAction)
    (action : DocumentAction) :
    s.accepted dg (actions ++ [action]) =
      s.accepted dg actions ++ (s.run dg actions).accepts dg action := by
  induction actions generalizing s with
  | nil => simp [accepted, run]
  | cons first rest ih =>
    rw [List.cons_append, accepted, ih, accepted, List.append_assoc]
    rfl

theorem run_concat (s : EditedDocument) (actions : List DocumentAction) (action : DocumentAction) :
    s.run dg (actions ++ [action]) = (s.run dg actions).step dg action := by
  rw [run, List.foldl_append]
  rfl

theorem recent_of_set {α : Type} {result : Except DocumentServiceError (α × OpenDocument)}
    (h : ∀ a doc', result = .ok (a, doc') → doc'.recent = s.doc.recent) :
    (s.set result).doc.recent = s.doc.recent := by
  cases result with
  | error e => rfl
  | ok p => exact h p.1 p.2 rfl

theorem accepts_eq {turn : DaemonTurn} {client : String} {r : ChangeRequest} {revision : ℕ}
    {doc' : OpenDocument} (hunseen : s.doc.recent.lookup r.changeId = none)
    (hok : s.doc.changeIn client dg turn r = .ok (revision, doc')) :
    s.accepts dg (.change turn client r) = [⟨r.changeId, r.transaction, revision⟩] := by
  rw [accepts, hunseen, hok]

/-- What a step does to the table when it accepts a change. -/
structure AcceptStep (dg : Digests) (s s' : EditedDocument) (turn : DaemonTurn) (client : String)
    (r : ChangeRequest) (revision : ℕ) : Prop where
  accepts : s.accepts dg (.change turn client r) = [⟨r.changeId, r.transaction, revision⟩]
  entered : OpenDocument.Entered dg turn.victim r revision s.doc s'.doc
  valid : OpenDocument.ValidId r.changeId
  writer : s'.doc.writer = some (client, r.writerLease)

theorem change_step_cases (dg : Digests) (s : EditedDocument) (turn : DaemonTurn) (client : String)
    (r : ChangeRequest) :
    (s.accepts dg (.change turn client r) = [] ∧
      (s.step dg (.change turn client r)).doc.recent = s.doc.recent) ∨
      ∃ revision, AcceptStep dg s (s.step dg (.change turn client r)) turn client r revision := by
  rw [accepts, step]
  cases hchange : s.doc.changeIn client dg turn r with
  | error e =>
    left
    cases s.doc.recent.lookup r.changeId <;> exact ⟨rfl, rfl⟩
  | ok p =>
    obtain ⟨revision, doc'⟩ := p
    obtain ⟨hvalid, hlease⟩ := changeIn_valid hchange
    rcases change_entered (changeIn_eq_ok hchange) with
      ⟨hseen, rfl⟩ | hentered
    · rw [hseen]
      exact .inl ⟨rfl, rfl⟩
    · right
      have hwriter : s.doc.writer = some (client, r.writerLease) := by
        simpa [holdsLease] using hlease
      exact ⟨revision, accepts_eq hentered.unseen hchange, hentered, hvalid,
        hentered.writer.trans hwriter⟩

/-- Each step leaves the table or accepts a change. -/
theorem step_cases (dg : Digests) (s : EditedDocument) (action : DocumentAction) :
    (s.accepts dg action = [] ∧ (s.step dg action).doc.recent = s.doc.recent) ∨
      ∃ turn client r revision, action = .change turn client r ∧
        AcceptStep dg s (s.step dg action) turn client r revision := by
  cases action with
  | attach client writable lease =>
    obtain ⟨readers, writer, hattach⟩ := attach_snd s.doc client writable lease
    refine .inl ⟨rfl, ?_⟩
    rw [step, hattach]
  | acquireWriter projectId client lease =>
    refine .inl ⟨rfl, recent_of_set fun a doc' hok => ?_⟩
    obtain ⟨-, writer, rfl⟩ := acquireWriterIn_eq_ok hok
    rfl
  | change turn client r =>
    rcases change_step_cases dg s turn client r with hnone | ⟨revision, haccept⟩
    · exact .inl hnone
    · exact .inr ⟨turn, client, r, revision, rfl, haccept⟩
  | captureSave projectId client lease expectedRevision =>
    refine .inl ⟨rfl, ?_⟩
    rw [step]
    split <;> rfl
  | commitSave projectId capture =>
    refine .inl ⟨rfl, ?_⟩
    rw [step]
    split
    · refine recent_of_set fun a doc' hok => ?_
      rw [(commitSaveIn_eq_ok hok).2]
      rfl
    · rfl
  | markDiskConflict projectId actualDiskDigest =>
    refine .inl ⟨rfl, recent_of_set fun a doc' hok => ?_⟩
    rw [markDiskConflictIn_eq_ok hok]
    rfl
  | refreshClean projectId client expectedRevision text =>
    refine .inl ⟨rfl, recent_of_set fun a doc' hok => ?_⟩
    rcases refreshClean_eq_ok hok with ⟨conflicted, rfl⟩ | ⟨-, rfl⟩ <;> rfl
  | reloadVerified projectId client lease expectedRevision text =>
    refine .inl ⟨rfl, recent_of_set fun a doc' hok => ?_⟩
    rw [(reloadVerified_eq_ok hok).2]
    rfl
  | detach client => exact .inl ⟨rfl, rfl⟩

/-- The table holds the changes accepted last. -/
structure Windowed (dg : Digests) (doc : OpenDocument) (log : List AcceptedChange) : Prop where
  recent : doc.recent = (log.map (·.entry dg)).rtake maxDedupe
  keys : (doc.recent.map Prod.fst).Nodup
  valid : ∀ c ∈ log, OpenDocument.ValidId c.changeId

theorem map_rtake {α β : Type} (f : α → β) (xs : List α) (n : ℕ) :
    (xs.map f).rtake n = (xs.rtake n).map f := by
  simp [List.rtake]

/-- All of them are recognised then. -/
theorem Windowed.recognises {doc : OpenDocument} (h : Windowed dg doc log)
    (hc : c ∈ log.rtake maxDedupe) :
    doc.Recognises dg c := by
  have hentry : c.entry dg ∈ doc.recent := by
    rw [h.recent, map_rtake]
    exact List.mem_map_of_mem hc
  exact recognises_of_lookup (h.valid c (List.mem_of_mem_drop hc))
    (lookup_of_mem h.keys hentry)

theorem AcceptStep.key_unseen {s' : EditedDocument} {turn : DaemonTurn} {client : String}
    {r : ChangeRequest} {revision : ℕ} (h : AcceptStep dg s s' turn client r revision) :
    r.changeId ∉ s.doc.recent.map Prod.fst := by
  intro hmem
  obtain ⟨entry, hentry, hkey⟩ := List.mem_map.mp hmem
  have hne := List.lookup_eq_none_iff.mp h.entered.unseen entry hentry
  simp [hkey] at hne

/-- The window moves along when the oldest entry makes room. -/
theorem Windowed.step (h : Windowed dg s.doc log) {action : DocumentAction}
    (holdest : s.EvictsOldest dg action) :
    Windowed dg (s.step dg action).doc (log ++ s.accepts dg action) := by
  rcases step_cases dg s action with ⟨hnone, hrecent⟩ |
    ⟨turn, client, r, revision, rfl, haccept⟩
  · rw [hnone, List.append_nil]
    exact ⟨hrecent.trans h.recent, hrecent ▸ h.keys, h.valid⟩
  · have hvictim := holdest (by rw [haccept.accepts]; exact List.cons_ne_nil _ _)
    have hrecent := haccept.entered.recent
    rw [haccept.accepts]
    refine ⟨?_, ?_, ?_⟩
    · rw [hrecent, List.map_append]
      exact pushEvicting_oldest (by decide) h.recent hvictim
    · rw [hrecent]
      exact nodup_keys_pushEvicting h.keys haccept.key_unseen
    · intro c hc
      rcases List.mem_append.mp hc with hold | hnew
      · exact h.valid c hold
      · rw [List.mem_singleton.mp hnew]
        exact haccept.valid

/-- When another entry makes room, a change accepted lately is not recognised any more. -/
theorem Windowed.exists_unrecognised (h : Windowed dg s.doc log) {action : DocumentAction}
    (holdest : ¬s.EvictsOldest dg action) :
    ∃ c ∈ (log ++ s.accepts dg action).rtake maxDedupe,
      ¬(s.step dg action).doc.Recognises dg c := by
  rcases step_cases dg s action with ⟨hnone, hrecent⟩ |
    ⟨turn, client, r, revision, rfl, haccept⟩
  · refine absurd ?_ holdest
    cases action with
    | change turn client r => exact fun hsome => absurd hnone hsome
    | _ => trivial
  · simp only [EvictsOldest, Classical.not_imp] at holdest
    obtain ⟨-, hfull, hvictim⟩ := holdest
    have hunseen : (r.changeId, dg.payload r.transaction, revision).1 ∉
        s.doc.recent.map Prod.fst := haccept.key_unseen
    obtain ⟨lost, hlost, hgone⟩ := exists_lost_of_pushEvicting (by decide) h.recent h.keys
      hunseen hfull hvictim
    rw [← remember_eq, ← haccept.entered.recent] at hgone
    have hlog : log.map (·.entry dg) ++ [(r.changeId, dg.payload r.transaction, revision)] =
        (log ++ s.accepts dg (.change turn client r)).map (·.entry dg) := by
      rw [haccept.accepts, List.map_append]
      rfl
    rw [hlog, map_rtake] at hlost
    obtain ⟨c, hc, rfl⟩ := List.mem_map.mp hlost
    exact ⟨c, hc, not_recognises_of_not_mem haccept.writer hgone⟩

/-- A run of which every part recognises its retries. -/
def EveryRetryRecognised (dg : Digests) (s : EditedDocument) (actions : List DocumentAction) :
    Prop :=
  ∀ done, done <+: actions → s.RetriesRecognised dg done

/-- A run in which every full table drops its oldest entry. -/
def AlwaysEvictsOldest (dg : Digests) (s : EditedDocument) (actions : List DocumentAction) :
    Prop :=
  ∀ done action, done ++ [action] <+: actions → (s.run dg done).EvictsOldest dg action

theorem everyRetryRecognised_concat (actions : List DocumentAction) (action : DocumentAction) :
    EveryRetryRecognised dg s (actions ++ [action]) ↔
      EveryRetryRecognised dg s actions ∧ s.RetriesRecognised dg (actions ++ [action]) := by
  simp only [EveryRetryRecognised, List.prefix_concat_iff, or_imp, forall_and, forall_eq]
  exact and_comm

theorem alwaysEvictsOldest_concat (actions : List DocumentAction) (action : DocumentAction) :
    AlwaysEvictsOldest dg s (actions ++ [action]) ↔
      AlwaysEvictsOldest dg s actions ∧ (s.run dg actions).EvictsOldest dg action := by
  simp only [AlwaysEvictsOldest, List.prefix_concat_iff, or_imp, forall_and]
  rw [and_comm]
  refine and_congr_right fun _ => ⟨fun h => h actions action rfl, fun h done last heq => ?_⟩
  obtain ⟨rfl, hlast⟩ := List.append_inj' heq rfl
  obtain rfl := List.cons.inj hlast |>.1
  exact h

theorem everyRetryRecognised_iff_windowed (hstart : Windowed dg s.doc [])
    (actions : List DocumentAction) :
    (EveryRetryRecognised dg s actions ↔ AlwaysEvictsOldest dg s actions) ∧
      (AlwaysEvictsOldest dg s actions →
        Windowed dg (s.run dg actions).doc (s.accepted dg actions)) := by
  induction actions using List.reverseRecOn with
  | nil =>
    refine ⟨⟨fun _ done action hdone => ?_, fun _ done hdone => ?_⟩, fun _ => hstart⟩
    · have := List.prefix_nil.mp hdone
      simp at this
    · rw [List.prefix_nil.mp hdone]
      intro c hc
      simp [accepted] at hc
  | append_singleton actions action ih =>
    obtain ⟨hiff, hwindow⟩ := ih
    rw [everyRetryRecognised_concat, alwaysEvictsOldest_concat]
    refine ⟨⟨fun h => ?_, fun h => ?_⟩, fun h => ?_⟩
    · have halways := hiff.mp h.1
      refine ⟨halways, ?_⟩
      by_contra holdest
      obtain ⟨c, hc, hunrecognised⟩ := (hwindow halways).exists_unrecognised holdest
      rw [← accepted_concat] at hc
      rw [← run_concat] at hunrecognised
      exact hunrecognised (h.2 c hc)
    · refine ⟨hiff.mpr h.1, fun c hc => ?_⟩
      have hnext := (hwindow h.1).step h.2
      rw [← accepted_concat, ← run_concat] at hnext
      exact hnext.recognises hc
    · have hnext := (hwindow h.1).step h.2
      rw [← accepted_concat, ← run_concat] at hnext
      exact hnext

theorem windowed_openedDocument (documentId projectId : String) (text : Rope) :
    Windowed dg (openedDocument dg documentId projectId text) [] where
  recent := (List.rtake_nil _).symm
  keys := List.nodup_nil
  valid _ hc := absurd hc List.not_mem_nil

theorem everyRetryRecognised_iff (dg : Digests) (documentId projectId : String) (text : Rope)
    (actions : List DocumentAction) :
    EveryRetryRecognised dg ⟨openedDocument dg documentId projectId text, []⟩ actions ↔
      AlwaysEvictsOldest dg ⟨openedDocument dg documentId projectId text, []⟩ actions :=
  (everyRetryRecognised_iff_windowed (windowed_openedDocument documentId projectId text) actions).1

end EditedDocument

/-- A failed request changes nothing unless it is an open that is refused the writer, and
retries are recognised unless a full table drops an entry other than its oldest. -/
theorem requests_atomic_and_recognised_iff (dg : Digests) (reg : Registry)
    (op : GuardedOperation) (documentId projectId : String) (text : Rope)
    (actions : List DocumentAction) :
    (reg.AtomicOnError dg op ↔ ¬reg.OpensRefused op) ∧
      (EditedDocument.EveryRetryRecognised dg
          ⟨openedDocument dg documentId projectId text, []⟩ actions ↔
        EditedDocument.AlwaysEvictsOldest dg
          ⟨openedDocument dg documentId projectId text, []⟩ actions) :=
  ⟨Registry.atomicOnError_iff_not_opensRefused op,
    EditedDocument.everyRetryRecognised_iff dg documentId projectId text actions⟩

/-! ### The two failures -/

def constantDigests : Digests := ⟨fun _ => "", fun _ => ""⟩

/-- A document that Ann writes. -/
def annsDocument : OpenDocument :=
  { openedDocument constantDigests "doc" "project" [] with
    readers := ["ann"]
    writer := some ("ann", "lease") }

def annsKey : DocumentKey := ⟨"project", "workspace", .workspace, "notes"⟩

/-- An identity for each number. -/
def numbered : ℕ → String
  | 0 => "a"
  | i + 1 => numbered i ++ "a"

def quietTurn : DaemonTurn := ⟨⟨0, 0, 0⟩, 1, none, false, "", ""⟩

/-- A change without edits. -/
def emptyRequest (changeId : String) : ChangeRequest :=
  ⟨"project", "doc", "lease", 0, changeId, ⟨[]⟩⟩

/-- Ann sends so many changes. -/
def annFills (n : ℕ) : List DocumentAction :=
  .attach "ann" true "lease" ::
    (List.range n).map fun i => .change quietTurn "ann" (emptyRequest (numbered i))

/-- Ann's document with so many changes in its table. -/
def annsTable (n : ℕ) : OpenDocument :=
  { annsDocument with recent := (List.range n).map fun i => (numbered i, "", 0) }

theorem utf8ByteSize_numbered (i : ℕ) : (numbered i).utf8ByteSize = i + 1 := by
  induction i with
  | zero => decide
  | succ i ih =>
    rw [numbered, String.utf8ByteSize_append, ih]
    rfl

theorem validId_numbered {i : ℕ} (hi : i < maxDedupe) : OpenDocument.ValidId (numbered i) := by
  have hsize := utf8ByteSize_numbered i
  have hlt : i < 128 := hi
  rintro (hempty | hlong)
  · rw [hempty] at hsize
    exact absurd hsize.symm (Nat.succ_ne_zero i)
  · omega

theorem lookup_annsTable {changeId : String} (h : ∀ i < n, changeId ≠ numbered i) :
    (annsTable n).recent.lookup changeId = none := by
  rw [List.lookup_eq_none_iff]
  intro entry hentry
  obtain ⟨i, hi, rfl⟩ := List.mem_map.mp hentry
  simpa using h i (List.mem_range.mp hi)

theorem emptyRequest_accepted {changeId : String} (hid : OpenDocument.ValidId changeId)
    (hunseen : (annsTable n).recent.lookup changeId = none) :
    (annsTable n).changeIn "ann" constantDigests quietTurn (emptyRequest changeId) =
      .ok (0, { annsTable n with
        recent := remember (annsTable n).recent 1 changeId "" 0 }) := by
  have hid' : ¬((emptyRequest changeId).changeId = "" ∨
      128 < (emptyRequest changeId).changeId.utf8ByteSize) := hid
  have hunseen' : (annsTable n).recent.lookup (emptyRequest changeId).changeId = none := hunseen
  rw [changeIn, if_neg hid', change, hunseen']
  rfl

theorem remember_annsTable (hn : n < maxDedupe) :
    remember (annsTable n).recent 1 (numbered n) "" 0 = (annsTable (n + 1)).recent := by
  have hroom : ¬maxDedupe ≤ (annsTable n).recent.length := by simpa [annsTable] using hn
  rw [remember, if_neg hroom, annsTable, annsTable, List.range_succ, List.map_append]
  rfl

/-- The changes are all in the table afterwards. -/
theorem run_annFills (hn : n ≤ maxDedupe) :
    run constantDigests
      ⟨openedDocument constantDigests "doc" "project" [], []⟩ (annFills n) = ⟨annsTable n, []⟩ := by
  induction n with
  | zero => rfl
  | succ n ih =>
    have hsplit : annFills (n + 1) =
        annFills n ++ [.change quietTurn "ann" (emptyRequest (numbered n))] := by
      rw [annFills, List.range_succ, List.map_append]
      rfl
    have hunseen : (annsTable n).recent.lookup (numbered n) = none := by
      refine lookup_annsTable fun i hi heq => ?_
      have hsize := congrArg String.utf8ByteSize heq
      rw [utf8ByteSize_numbered, utf8ByteSize_numbered] at hsize
      omega
    rw [hsplit, run_concat, ih (by omega), step,
      emptyRequest_accepted (validId_numbered (by omega)) hunseen, remember_annsTable (by omega)]
    rfl

/-- One more change drops the second entry of the full table. -/
def oneMore : DocumentAction := .change quietTurn "ann" (emptyRequest "b")

theorem not_evictsOldest_oneMore :
    ¬EditedDocument.EvictsOldest constantDigests ⟨annsTable maxDedupe, []⟩ oneMore := by
  have hunseen : (annsTable maxDedupe).recent.lookup "b" = none := by
    refine lookup_annsTable fun i _ heq => ?_
    have hsize := congrArg String.utf8ByteSize heq
    rw [utf8ByteSize_numbered] at hsize
    have hzero : i = 0 := (Nat.succ.inj hsize).symm
    rw [hzero] at heq
    exact absurd heq (by decide)
  have hok := emptyRequest_accepted (by decide : OpenDocument.ValidId "b") hunseen
  have hlength : (annsTable maxDedupe).recent.length = maxDedupe := by simp [annsTable]
  have haccepts := accepts_eq (s := ⟨annsTable maxDedupe, []⟩) hunseen hok
  intro holdest
  have hvictim := holdest (haccepts ▸ List.cons_ne_nil _ _) hlength.ge
  dsimp only at hvictim
  rw [hlength] at hvictim
  exact absurd hvictim (by decide)

/-- Bob is refused the writer and stays a reader; a change that Ann has just sent is forgotten
because the full table drops its second entry. -/
theorem refused_reader_stays_and_retry_lost :
    ¬(Registry.empty.insert annsKey annsDocument).AtomicOnError constantDigests
        (.openDocument ⟨⟨0, 0, 0⟩, 0, none, false, "", "fresh"⟩ annsKey "bob" true) ∧
      ¬EditedDocument.EveryRetryRecognised constantDigests
        ⟨openedDocument constantDigests "doc" "project" [], []⟩
        (annFills maxDedupe ++ [oneMore]) := by
  constructor
  · refine Registry.not_atomicOnError_of_opensRefused ⟨"doc", ⟨annsKey, annsDocument⟩,
      by decide, by decide, rfl, ?_⟩
    exact ⟨rfl, by decide, ⟨"ann", "lease", rfl, by decide⟩, by decide⟩
  · rw [EditedDocument.everyRetryRecognised_iff]
    intro halways
    have holdest := halways (annFills maxDedupe) oneMore (List.prefix_refl _)
    rw [run_annFills (le_refl _)] at holdest
    exact not_evictsOldest_oneMore holdest

end Codegg.Documents
