import Codegg.Documents.Registry

/-!
# Attachment under interleaving

The operations of the service as the steps that its locks delimit. An `open` keeps the
lock of its key from its lookup to its end. A detachment and a sweep decide under the lock
of the document which documents go, and take them out of the maps in a step of their own;
what happens in between is up to the other clients.
-/
namespace Codegg.Documents

open Codegg.Library Registry

/-- An `open` after its lookup: it has found a document, or has yet to read the file. -/
structure PendingOpen where
  key : DocumentKey
  client : String
  writable : Bool
  target : Option String
  deriving DecidableEq, Repr

def PendingOpen.keyString (p : PendingOpen) : String := p.key.toKeyString

/-- Documents that were found clean and unattached, with their keys; a sweep still looks
for more. -/
structure Eviction where
  found : List (String × String)
  sweeping : Bool
  deriving DecidableEq, Repr

/-- `attached` records the clients whose `open` succeeded and who have not left. -/
structure AttachmentState where
  reg : Registry
  opens : List PendingOpen
  evictions : List Eviction
  attached : Finset (String × String)

/-- A step of some operation. Steps on a document name one that the operation has looked
up before; it may have left the maps since. -/
inductive AttachmentStep where
  | lookup (key : DocumentKey) (client : String) (writable : Bool)
  | attach (which : ℕ) (lease : String)
  | insert (which : ℕ) (documentId : String) (text : Rope) (lease : String)
  | failOpen (which : ℕ)
  | acquireWriter (id projectId client lease : String)
  | change (turn : DaemonTurn) (id client : String) (r : ChangeRequest)
  | detachDocument (id projectId client : String)
  | leave (id client : String)
  | startSweep
  | visit (which : ℕ) (id : String)
  | evict (which : ℕ)
  deriving DecidableEq, Repr

namespace Registry

/-- A step under the lock of a document that was looked up before. -/
def onHeld {α : Type} (reg : Registry) (id : String)
    (f : OpenDocument → Except DocumentServiceError (α × OpenDocument)) : Registry :=
  match reg.documents id with
  | none => reg
  | some k =>
    match f k.doc with
    | .error _ => reg
    | .ok (_, doc) => reg.put id k.key doc

def removeAll (reg : Registry) (found : List (String × String)) : Registry :=
  found.foldl (fun reg x => reg.remove x.1 x.2) reg

end Registry

namespace AttachmentState

variable (dg : Digests)

def start : AttachmentState := ⟨.empty, [], [], ∅⟩

def pending (s : AttachmentState) (which : ℕ) (hasTarget : Bool) : Option PendingOpen :=
  (s.opens[which]?).filter fun p => p.target.isSome = hasTarget

/-- An `open` ends; if it succeeds, the client is attached from then on. -/
def endOpen (s : AttachmentState) (which : ℕ) (client id : String) :
    Except DocumentServiceError OpenDocument × Registry → AttachmentState
  | (.error _, reg) => { s with reg := reg, opens := s.opens.eraseIdx which }
  | (.ok _, reg) =>
    { s with
      reg := reg
      opens := s.opens.eraseIdx which
      attached := Insert.insert (client, id) s.attached }

def lookup (s : AttachmentState) (key : DocumentKey) (client : String) (writable : Bool) :
    AttachmentState :=
  if key.toKeyString ∈ s.opens.map PendingOpen.keyString then s
  else
    match s.reg.byKey key.toKeyString with
    | some id =>
      if id ∈ s.reg.byId then { s with opens := s.opens ++ [⟨key, client, writable, some id⟩] }
      else
        { s with reg :=
          { s.reg with byKey := Function.update s.reg.byKey key.toKeyString none } }
    | none => { s with opens := s.opens ++ [⟨key, client, writable, none⟩] }

/-- The client leaves the document; the answer is whether it is to go. -/
def leave (s : AttachmentState) (id client : String) (k : KeyedDocument) : AttachmentState :=
  { s with
    reg := s.reg.put id k.key (k.doc.detachClient client)
    attached := s.attached.erase (client, id) }

def step (s : AttachmentState) : AttachmentStep → AttachmentState
  | .lookup key client writable => s.lookup key client writable
  | .attach which lease =>
    match s.pending which true with
    | some ⟨_, client, writable, some id⟩ =>
      s.endOpen which client id (s.reg.attachTo id client writable lease)
    | _ => s
  | .insert which documentId text lease =>
    match s.pending which false with
    | some p =>
      -- identities are drawn at random and do not come twice
      if (s.reg.documents documentId).isSome then s
      else s.endOpen which p.client documentId
        (s.reg.insertOpened p.key (openedDocument dg documentId p.key.projectId text) p.client
          p.writable lease)
    | none => s
  | .failOpen which => { s with opens := s.opens.eraseIdx which }
  | .acquireWriter id projectId client lease =>
    { s with reg := s.reg.onHeld id fun doc => doc.acquireWriterIn projectId client lease }
  | .change turn id client r =>
    { s with reg := s.reg.onHeld id fun doc => doc.changeIn client dg turn r }
  | .detachDocument id projectId client =>
    match s.reg.documents id with
    | none => s
    | some k =>
      if k.doc.projectId ≠ projectId then s
      else if (k.doc.detachClient client).isEvictable then
        { s.leave id client k with
          evictions := s.evictions ++ [⟨[(id, k.key.toKeyString)], false⟩] }
      else s.leave id client k
  | .leave id client =>
    match s.reg.documents id with
    | none => s
    | some k => s.leave id client k
  | .startSweep => { s with evictions := s.evictions ++ [⟨[], true⟩] }
  | .visit which id =>
    match s.evictions[which]?, s.reg.find id with
    | some e, some k =>
      if e.sweeping && k.doc.isEvictable then
        { s with evictions :=
          s.evictions.set which { e with found := e.found ++ [(id, k.key.toKeyString)] } }
      else s
    | _, _ => s
  | .evict which =>
    match s.evictions[which]? with
    | some e =>
      { s with reg := s.reg.removeAll e.found, evictions := s.evictions.eraseIdx which }
    | none => s

def run (s : AttachmentState) (steps : List AttachmentStep) : AttachmentState :=
  steps.foldl (step dg) s

/-- No removal that has been decided is about this document. -/
def Spared (s : AttachmentState) (id : String) : Prop :=
  ∀ e ∈ s.evictions, ∀ x ∈ e.found, x.1 ≠ id

/-- No removal that has been decided is about this key. -/
def SparedKey (s : AttachmentState) (keyString : String) : Prop :=
  ∀ e ∈ s.evictions, ∀ x ∈ e.found, x.2 ≠ keyString

/-- Nothing came between a lookup and what is done with it: a client is attached to a
document that is still in the maps and stays there, a document goes in under a key that no
decided removal is about, and a document that is let go is in the maps, or nothing is
under its key. -/
def Clear (s : AttachmentState) : AttachmentStep → Prop
  | .attach which _ => ∀ p ∈ s.opens[which]?, ∀ id ∈ p.target, id ∈ s.reg.byId ∧ s.Spared id
  | .insert which _ _ _ => ∀ p ∈ s.opens[which]?, p.target = none → s.SparedKey p.keyString
  | .detachDocument id projectId _ => id ∈ s.reg.byId ∨
      ∀ k ∈ s.reg.documents id, k.doc.projectId = projectId →
        s.reg.byKey k.key.toKeyString = none
  | _ => True

instance (s : AttachmentState) : (a : AttachmentStep) → Decidable (s.Clear a)
  | .attach which _ => inferInstanceAs (Decidable (∀ p ∈ s.opens[which]?, ∀ id ∈ p.target,
      id ∈ s.reg.byId ∧ ∀ e ∈ s.evictions, ∀ x ∈ e.found, x.1 ≠ id))
  | .insert which _ _ _ => inferInstanceAs (Decidable (∀ p ∈ s.opens[which]?, p.target = none →
      ∀ e ∈ s.evictions, ∀ x ∈ e.found, x.2 ≠ p.keyString))
  | .detachDocument id projectId _ => inferInstanceAs (Decidable (id ∈ s.reg.byId ∨
      ∀ k ∈ s.reg.documents id, k.doc.projectId = projectId →
        s.reg.byKey k.key.toKeyString = none))
  | .lookup _ _ _ | .failOpen _ | .acquireWriter _ _ _ _ | .change _ _ _ _ | .leave _ _
  | .startSweep | .visit _ _ | .evict _ => inferInstanceAs (Decidable True)

def ClearRun : AttachmentState → List AttachmentStep → Prop
  | _, [] => True
  | s, a :: steps => s.Clear a ∧ ClearRun (s.step dg a) steps

/-- What the clients of the service rely on. -/
structure Consistent (s : AttachmentState) : Prop where
  /-- A client who is attached reads a document that is in the maps. -/
  readers : ∀ client id, (client, id) ∈ s.attached →
    id ∈ s.reg.byId ∧ ∃ k, s.reg.documents id = some k ∧ client ∈ k.doc.readers
  keys : ∀ keyString id, s.reg.byKey keyString = some id →
    id ∈ s.reg.byId ∧ ∃ k, s.reg.documents id = some k ∧ k.key.toKeyString = keyString
  targets : ∀ id ∈ s.reg.byId,
    ∃ k, s.reg.documents id = some k ∧ s.reg.byKey k.key.toKeyString = some id
  /-- One path has one writer, over all documents anyone may still hold. -/
  writers : ∀ id k id' k' w w', s.reg.documents id = some k → s.reg.documents id' = some k' →
    k.key.toKeyString = k'.key.toKeyString → k.doc.writer = some w → k'.doc.writer = some w' →
      w.1 = w'.1
  /-- Text that is not on disk is not let go. -/
  dirty : ∀ id k, s.reg.documents id = some k → k.doc.dirty = true → id ∈ s.reg.byId

end AttachmentState

/-! ### The maps and the documents -/

namespace OpenDocument

variable {doc doc' : OpenDocument} {client lease : String}

theorem isEvictable_iff : doc.isEvictable = true ↔
    doc.dirty = false ∧ doc.readers = [] ∧ doc.writer = none := by
  simp [isEvictable, and_assoc]

theorem isEvictable_detachClient (h : doc.isEvictable = true) (client : String) :
    (doc.detachClient client).isEvictable = true := by
  obtain ⟨hdirty, hreaders, hwriter⟩ := isEvictable_iff.mp h
  rw [isEvictable_iff]
  simp [detachClient, hdirty, hreaders, hwriter]

theorem mem_readers_detachClient {other : String} (h : other ∈ doc.readers) (hne : other ≠ client) :
    other ∈ (doc.detachClient client).readers := by
  simp [detachClient, h, hne]

/-- An attachment that succeeds enters the client, and nobody is dropped. -/
theorem attach_readers {writable : Bool} {result : Except DocumentServiceError Unit}
    (h : doc.attach client writable lease = (result, doc')) :
    (∀ other ∈ doc.readers, other ∈ doc'.readers) ∧
      (result = .ok () → client ∈ doc'.readers) := by
  rw [attach] at h
  by_cases hfull : maxAttachments ≤ doc.readers.length
  · rw [if_pos hfull] at h
    cases h
    exact ⟨fun _ ho => ho, fun hok => by cases hok⟩
  rw [if_neg hfull] at h
  have hentered : client ∈ (if client ∈ doc.readers then doc.readers else doc.readers ++ [client]) ∧
      ∀ other ∈ doc.readers,
        other ∈ (if client ∈ doc.readers then doc.readers else doc.readers ++ [client]) := by
    by_cases hclient : client ∈ doc.readers
    · simp [hclient]
    · simp only [if_neg hclient, List.mem_append, List.mem_singleton]
      exact ⟨.inr trivial, fun _ ho => .inl ho⟩
  simp only at h
  split at h
  · split at h
    · split at h
      · cases h
        exact ⟨hentered.2, fun hok => by cases hok⟩
      · cases h
        exact ⟨hentered.2, fun _ => hentered.1⟩
    · cases h
      exact ⟨hentered.2, fun _ => hentered.1⟩
  · cases h
    exact ⟨hentered.2, fun _ => hentered.1⟩

end OpenDocument

variable {client id : String} {which : ℕ}

namespace Registry

/-- How the maps, the documents, the clients who are attached, the removals that have been
decided and the keys under which a file is being read belong together. -/
structure Linked (reg : Registry) (attached : Finset (String × String))
    (doomed : Set (String × String)) (free : Set String) : Prop where
  readers : ∀ client id, (client, id) ∈ attached →
    id ∈ reg.byId ∧ ∃ k, reg.documents id = some k ∧ client ∈ k.doc.readers
  keys : ∀ keyString id, reg.byKey keyString = some id →
    id ∈ reg.byId ∧ ∃ k, reg.documents id = some k ∧ k.key.toKeyString = keyString
  targets : ∀ id ∈ reg.byId,
    ∃ k, reg.documents id = some k ∧ reg.byKey k.key.toKeyString = some id
  gone : ∀ id k, reg.documents id = some k → id ∉ reg.byId → k.doc.isEvictable = true
  doomed : ∀ x ∈ doomed, ∃ k, reg.documents x.1 = some k ∧ k.key.toKeyString = x.2 ∧
    k.doc.isEvictable = true ∧ (x.1 ∉ reg.byId → reg.byKey x.2 = none)
  free : ∀ keyString ∈ free, reg.byKey keyString = none

variable {reg : Registry} {attached attached' : Finset (String × String)}
  {doomed doomed' : Set (String × String)} {free free' : Set String} {id : String}
  {k : KeyedDocument}

theorem Linked.mono (h : reg.Linked attached doomed free) (ha : attached' ⊆ attached)
    (hd : doomed' ⊆ doomed) (hf : free' ⊆ free) : reg.Linked attached' doomed' free' :=
  { h with
    readers := fun client id hc => h.readers client id (ha hc)
    doomed := fun x hx => h.doomed x (hd hx)
    free := fun keyString hk => h.free keyString (hf hk) }

/-- A document changes, and only the clients attached to it are looked at again. A document
outside the maps, or about to leave them, stays without readers, writer and changes. -/
theorem Linked.put (h : reg.Linked attached doomed free) (hk : reg.documents id = some k)
    {doc : OpenDocument} (hothers : ∀ client i, (client, i) ∈ attached' → i ≠ id →
      (client, i) ∈ attached)
    (hself : ∀ client, (client, id) ∈ attached' → id ∈ reg.byId ∧ client ∈ doc.readers)
    (hcalm : (id ∉ reg.byId ∨ ∃ x ∈ doomed, x.1 = id) → doc.isEvictable = true) :
    (reg.put id k.key doc).Linked attached' doomed free where
  readers client i hc := by
    by_cases hi : i = id
    · subst hi
      exact ⟨(hself client hc).1, ⟨k.key, doc⟩, Function.update_self _ _ _, (hself client hc).2⟩
    · obtain ⟨hid, k', hk', hreader⟩ := h.readers client i (hothers client i hc hi)
      exact ⟨hid, k', by simpa [Registry.put, hi] using hk', hreader⟩
  keys keyString i hi := by
    obtain ⟨hid, k', hk', hkey⟩ := h.keys keyString i hi
    by_cases hii : i = id
    · subst hii
      obtain rfl := Option.some.inj (hk.symm.trans hk')
      exact ⟨hid, ⟨k.key, doc⟩, Function.update_self _ _ _, hkey⟩
    · exact ⟨hid, k', by simpa [Registry.put, hii] using hk', hkey⟩
  targets i hi := by
    obtain ⟨k', hk', hkey⟩ := h.targets i hi
    by_cases hii : i = id
    · subst hii
      obtain rfl := Option.some.inj (hk.symm.trans hk')
      exact ⟨⟨k.key, doc⟩, Function.update_self _ _ _, hkey⟩
    · exact ⟨k', by simpa [Registry.put, hii] using hk', hkey⟩
  gone i k' hk' hi := by
    by_cases hii : i = id
    · subst hii
      simp only [put, Function.update_self, Option.some.injEq] at hk'
      rw [← hk']
      exact hcalm (.inl hi)
    · simp only [Registry.put, Function.update_of_ne hii] at hk'
      exact h.gone i k' hk' hi
  doomed x hx := by
    obtain ⟨k', hk', hkey, hevictable, hfree⟩ := h.doomed x hx
    by_cases hii : x.1 = id
    · rw [hii, hk] at hk'
      cases hk'
      refine ⟨⟨k.key, doc⟩, ?_, hkey, hcalm (.inr ⟨x, hx, hii⟩), hfree⟩
      rw [hii]
      exact Function.update_self _ _ _
    · exact ⟨k', by simpa [Registry.put, hii] using hk', hkey, hevictable, hfree⟩
  free := h.free

/-- A new document goes in under a key that nothing is under. -/
theorem Linked.insert (h : reg.Linked attached doomed free) {key : DocumentKey} {doc : OpenDocument}
    (hfresh : reg.documents doc.id = none) (hkey : reg.byKey key.toKeyString = none)
    (hspared : ∀ x ∈ doomed, x.2 ≠ key.toKeyString) (hfree : key.toKeyString ∉ free)
    (hclient : client ∈ doc.readers) :
    (reg.insert key doc).Linked (Insert.insert (client, doc.id) attached) doomed free := by
  have hdoc : ∀ i k, reg.documents i = some k → i ≠ doc.id := by
    rintro i k hk rfl
    rw [hfresh] at hk
    cases hk
  have hold : ∀ i, i ≠ doc.id → (reg.insert key doc).documents i = reg.documents i := fun i hi =>
    Function.update_of_ne hi _ _
  have hnew : (reg.insert key doc).documents doc.id = some ⟨key, doc⟩ :=
    Function.update_self _ _ _
  constructor
  · intro c i hc
    rcases Finset.mem_insert.mp hc with heq | hc
    · obtain ⟨rfl, rfl⟩ := Prod.mk.inj heq
      exact ⟨Finset.mem_insert_self _ _, _, hnew, hclient⟩
    · obtain ⟨hi, k, hk, hreader⟩ := h.readers c i hc
      exact ⟨Finset.mem_insert_of_mem hi, k, by rw [hold i (hdoc i k hk)]; exact hk, hreader⟩
  · intro keyString i hi
    by_cases hks : keyString = key.toKeyString
    · subst hks
      simp only [Registry.insert, Function.update_self, Option.some.injEq] at hi
      subst hi
      exact ⟨Finset.mem_insert_self _ _, _, hnew, rfl⟩
    · simp only [Registry.insert, Function.update_of_ne hks] at hi
      obtain ⟨hi', k, hk, hkey'⟩ := h.keys keyString i hi
      exact ⟨Finset.mem_insert_of_mem hi', k, by rw [hold i (hdoc i k hk)]; exact hk, hkey'⟩
  · intro i hi
    rcases Finset.mem_insert.mp hi with rfl | hi
    · exact ⟨_, hnew, Function.update_self _ _ _⟩
    · obtain ⟨k, hk, hkey'⟩ := h.targets i hi
      have hks : k.key.toKeyString ≠ key.toKeyString := by
        intro heq
        rw [heq, hkey] at hkey'
        cases hkey'
      refine ⟨k, by rw [hold i (hdoc i k hk)]; exact hk, ?_⟩
      simp only [Registry.insert, Function.update_of_ne hks]
      exact hkey'
  · intro i k hk hi
    have hi' : i ∉ reg.byId := fun hmem => hi (Finset.mem_insert_of_mem hmem)
    have hne : i ≠ doc.id := fun heq => hi (heq ▸ Finset.mem_insert_self _ _)
    rw [hold i hne] at hk
    exact h.gone i k hk hi'
  · intro x hx
    obtain ⟨k, hk, hkey', hevictable, hnone⟩ := h.doomed x hx
    refine ⟨k, by rw [hold x.1 (hdoc x.1 k hk)]; exact hk, hkey', hevictable, fun hi => ?_⟩
    simp only [Registry.insert, Function.update_of_ne (hspared x hx)]
    exact hnone fun hmem => hi (Finset.mem_insert_of_mem hmem)
  · intro keyString hks
    have hne : keyString ≠ key.toKeyString := fun heq => hfree (heq ▸ hks)
    simp only [Registry.insert, Function.update_of_ne hne]
    exact h.free keyString hks

/-- A removal that was decided takes a document and its own key out of the maps. -/
theorem Linked.remove (h : reg.Linked attached doomed free) {x : String × String}
    (hx : x ∈ doomed) : (reg.remove x.1 x.2).Linked attached doomed free := by
  obtain ⟨k, hk, hkey, hevictable, hnone⟩ := h.doomed x hx
  obtain ⟨-, hreaders, -⟩ := OpenDocument.isEvictable_iff.mp hevictable
  -- what is under the key is this document, if anything
  have hown : ∀ i, reg.byKey x.2 = some i → i = x.1 := by
    intro i hi
    by_contra hne
    have hin : x.1 ∈ reg.byId := by
      by_contra hout
      rw [hnone hout] at hi
      cases hi
    obtain ⟨k', hk', hkey'⟩ := h.targets x.1 hin
    obtain rfl := Option.some.inj (hk.symm.trans hk')
    rw [hkey, hi] at hkey'
    exact hne (Option.some.inj hkey')
  have hkeys : ∀ keyString i, (reg.remove x.1 x.2).byKey keyString = some i →
      keyString ≠ x.2 ∧ reg.byKey keyString = some i := by
    intro keyString i hi
    by_cases hks : keyString = x.2
    · subst hks
      simp [Registry.remove] at hi
    · simp only [Registry.remove, Function.update_of_ne hks] at hi
      exact ⟨hks, hi⟩
  have hstays : ∀ keyString, reg.byKey keyString = none →
      (reg.remove x.1 x.2).byKey keyString = none := by
    intro keyString hks
    by_cases heq : keyString = x.2
    · subst heq
      exact Function.update_self _ _ _
    · simp only [Registry.remove, Function.update_of_ne heq]
      exact hks
  constructor
  · intro c i hc
    obtain ⟨hi, k', hk', hreader⟩ := h.readers c i hc
    refine ⟨Finset.mem_erase.mpr ⟨?_, hi⟩, k', hk', hreader⟩
    rintro rfl
    obtain rfl := Option.some.inj (hk.symm.trans hk')
    rw [hreaders] at hreader
    cases hreader
  · intro keyString i hi
    obtain ⟨hks, hi'⟩ := hkeys keyString i hi
    obtain ⟨hin, k', hk', hkey'⟩ := h.keys keyString i hi'
    refine ⟨Finset.mem_erase.mpr ⟨?_, hin⟩, k', hk', hkey'⟩
    rintro rfl
    obtain rfl := Option.some.inj (hk.symm.trans hk')
    exact hks (hkey'.symm.trans hkey)
  · intro i hi
    obtain ⟨hne, hin⟩ := Finset.mem_erase.mp hi
    obtain ⟨k', hk', hkey'⟩ := h.targets i hin
    have hks : k'.key.toKeyString ≠ x.2 := by
      intro heq
      rw [heq] at hkey'
      exact hne (hown i hkey')
    refine ⟨k', hk', ?_⟩
    simp only [Registry.remove, Function.update_of_ne hks]
    exact hkey'
  · intro i k' hk' hi
    by_cases heq : i = x.1
    · subst heq
      obtain rfl := Option.some.inj (hk.symm.trans hk')
      exact hevictable
    · exact h.gone i k' hk' fun hin => hi (Finset.mem_erase.mpr ⟨heq, hin⟩)
  · intro y hy
    obtain ⟨k', hk', hkey', hevictable', hnone'⟩ := h.doomed y hy
    refine ⟨k', hk', hkey', hevictable', fun hout => ?_⟩
    by_cases heq : y.1 = x.1
    · have hsame : y.2 = x.2 := by
        rw [heq] at hk'
        obtain rfl := Option.some.inj (hk.symm.trans hk')
        exact hkey'.symm.trans hkey
      rw [hsame]
      exact Function.update_self _ _ _
    · exact hstays _ (hnone' fun hin => hout (Finset.mem_erase.mpr ⟨heq, hin⟩))
  · intro keyString hks
    exact hstays keyString (h.free keyString hks)

theorem Linked.removeAll (h : reg.Linked attached doomed free) {found : List (String × String)}
    (hfound : ∀ x ∈ found, x ∈ doomed) : (reg.removeAll found).Linked attached doomed free := by
  induction found generalizing reg with
  | nil => exact h
  | cons x found ih =>
    exact ih (h.remove (hfound x List.mem_cons_self))
      fun y hy => hfound y (List.mem_cons_of_mem x hy)

/-- A step that fails on a document nobody has, and drops no reader. -/
theorem Linked.onHeld (h : reg.Linked attached doomed free) {α : Type}
    {f : OpenDocument → Except DocumentServiceError (α × OpenDocument)}
    (hfails : ∀ doc a doc', doc.isEvictable = true → f doc ≠ .ok (a, doc'))
    (hreaders : ∀ doc a doc', f doc = .ok (a, doc') → doc'.readers = doc.readers) :
    (reg.onHeld id f).Linked attached doomed free := by
  rw [Registry.onHeld]
  cases hk : reg.documents id with
  | none => exact h
  | some k =>
    simp only
    cases hf : f k.doc with
    | error e => exact h
    | ok p =>
      have hbusy : ¬k.doc.isEvictable = true := fun hev => hfails k.doc p.1 p.2 hev hf
      refine h.put hk (fun _ _ hc _ => hc) (fun client hc => ?_) fun hcalm => ?_
      · obtain ⟨hid, k', hk', hreader⟩ := h.readers client id hc
        obtain rfl := Option.some.inj (hk.symm.trans hk')
        rw [hreaders _ _ _ hf]
        exact ⟨hid, hreader⟩
      · exfalso
        rcases hcalm with hout | ⟨x, hx, rfl⟩
        · exact hbusy (h.gone id k hk hout)
        · obtain ⟨k', hk', -, hev, -⟩ := h.doomed x hx
          obtain rfl := Option.some.inj (hk.symm.trans hk')
          exact hbusy hev

end Registry

/-! ### Steps -/

namespace AttachmentState

variable {dg : Digests} {s : AttachmentState}

/-- What removals have been decided. -/
def doomed (evictions : List Eviction) : Set (String × String) :=
  fun x => ∃ e ∈ evictions, x ∈ e.found

/-- The keys whose file is being read. -/
def unread (opens : List PendingOpen) : Set String :=
  fun keyString => ∃ p ∈ opens, p.target = none ∧ p.keyString = keyString

structure Invariant (s : AttachmentState) : Prop where
  linked : s.reg.Linked s.attached (doomed s.evictions) (unread s.opens)
  locks : (s.opens.map PendingOpen.keyString).Nodup

theorem Invariant.consistent (h : s.Invariant) : s.Consistent where
  readers := h.linked.readers
  keys := h.linked.keys
  targets := h.linked.targets
  writers id k id' k' w w' hk hk' hkey hw hw' := by
    have hin : ∀ i q v, s.reg.documents i = some q → q.doc.writer = some v → i ∈ s.reg.byId := by
      intro i q v hq hv
      by_contra hout
      obtain ⟨-, -, hwriter⟩ := OpenDocument.isEvictable_iff.mp (h.linked.gone i q hq hout)
      rw [hwriter] at hv
      cases hv
    obtain ⟨q, hq, hby⟩ := h.linked.targets id (hin id k w hk hw)
    obtain ⟨q', hq', hby'⟩ := h.linked.targets id' (hin id' k' w' hk' hw')
    obtain rfl := Option.some.inj (hk.symm.trans hq)
    obtain rfl := Option.some.inj (hk'.symm.trans hq')
    rw [hkey, hby'] at hby
    obtain rfl := Option.some.inj hby
    obtain rfl := Option.some.inj (hk.symm.trans hk')
    rw [Option.some.inj (hw.symm.trans hw')]
  dirty id k hk hdirty := by
    by_contra hout
    obtain ⟨hclean, -⟩ := OpenDocument.isEvictable_iff.mp (h.linked.gone id k hk hout)
    rw [hclean] at hdirty
    cases hdirty

theorem pending_eq_some {hasTarget : Bool} {p : PendingOpen}
    (h : s.pending which hasTarget = some p) :
    s.opens[which]? = some p ∧ p.target.isSome = hasTarget := by
  rw [pending, Option.filter_eq_some_iff] at h
  exact ⟨h.1, of_decide_eq_true h.2⟩

theorem unread_eraseIdx (opens : List PendingOpen) (which : ℕ) :
    unread (opens.eraseIdx which) ⊆ unread opens := by
  rintro keyString ⟨p, hp, hnone, hkey⟩
  exact ⟨p, List.mem_of_mem_eraseIdx hp, hnone, hkey⟩

/-- The key of an `open` that ends is free of other ones. -/
theorem not_unread_eraseIdx (h : (s.opens.map PendingOpen.keyString).Nodup) {p : PendingOpen}
    (hp : s.opens[which]? = some p) :
    p.keyString ∉ unread (s.opens.eraseIdx which) := by
  rintro ⟨q, hq, -, hkey⟩
  obtain ⟨i, hi, hget⟩ := List.mem_eraseIdx_iff_getElem?.mp hq
  have hsame : i = which := by
    have hiq : (s.opens.map PendingOpen.keyString)[i]? = some p.keyString := by
      rw [List.getElem?_map, hget, Option.map_some, hkey]
    have hwp : (s.opens.map PendingOpen.keyString)[which]? = some p.keyString := by
      rw [List.getElem?_map, hp, Option.map_some]
    obtain ⟨hlt, hgeti⟩ := List.getElem?_eq_some_iff.mp hiq
    obtain ⟨hlt', hgetw⟩ := List.getElem?_eq_some_iff.mp hwp
    exact (List.Nodup.getElem_inj_iff h).mp (hgeti.trans hgetw.symm)
  exact hi hsame

theorem Invariant.endFailed (h : s.Invariant) (which : ℕ) :
    Invariant { s with opens := s.opens.eraseIdx which } where
  linked := h.linked.mono (Finset.Subset.refl _) (Set.Subset.refl _) (unread_eraseIdx _ _)
  locks := h.locks.sublist ((List.eraseIdx_sublist _ _).map _)

theorem Invariant.lookup (h : s.Invariant) (key : DocumentKey) (client : String)
    (writable : Bool) : (s.lookup key client writable).Invariant := by
  rw [AttachmentState.lookup]
  by_cases hlocked : key.toKeyString ∈ s.opens.map PendingOpen.keyString
  · rw [if_pos hlocked]
    exact h
  rw [if_neg hlocked]
  have hlocks : ∀ target, ((s.opens ++ [(⟨key, client, writable, target⟩ : PendingOpen)]).map
      PendingOpen.keyString).Nodup := by
    intro target
    rw [List.map_append]
    exact h.locks.append (List.nodup_singleton _) (List.disjoint_singleton.mpr hlocked)
  cases hby : s.reg.byKey key.toKeyString with
  | some id =>
    simp only
    rw [if_pos (h.linked.keys _ id hby).1]
    refine ⟨h.linked.mono (Finset.Subset.refl _) (Set.Subset.refl _) ?_, hlocks _⟩
    rintro keyString ⟨p, hp, hnone, hkey⟩
    rcases List.mem_append.mp hp with hp | hp
    · exact ⟨p, hp, hnone, hkey⟩
    · obtain rfl := List.mem_singleton.mp hp
      cases hnone
  | none =>
    refine ⟨?_, hlocks _⟩
    have hl := h.linked
    refine ⟨hl.readers, hl.keys, hl.targets, hl.gone, hl.doomed, ?_⟩
    rintro keyString ⟨p, hp, hnone, rfl⟩
    rcases List.mem_append.mp hp with hp | hp
    · exact hl.free _ ⟨p, hp, hnone, rfl⟩
    · obtain rfl := List.mem_singleton.mp hp
      exact hby

theorem Invariant.attach (h : s.Invariant) {lease : String} (hclear : s.Clear (.attach which lease)) :
    (s.step dg (.attach which lease)).Invariant := by
  rw [AttachmentState.step]
  cases hp : s.pending which true with
  | none => exact h
  | some p =>
    obtain ⟨key, client, writable, target⟩ := p
    obtain ⟨hget, htarget⟩ := pending_eq_some hp
    cases target with
    | none => cases htarget
    | some id =>
      obtain ⟨hin, hspared⟩ := hclear _ hget id rfl
      obtain ⟨k, hk, -⟩ := h.linked.targets id hin
      have hcalm : ∀ doc : OpenDocument,
          (id ∉ s.reg.byId ∨ ∃ x ∈ doomed s.evictions, x.1 = id) → doc.isEvictable = true := by
        rintro doc (hout | ⟨x, ⟨e, he, hx⟩, heq⟩)
        · exact absurd hin hout
        · exact absurd heq (hspared e he x hx)
      have hends := h.endFailed which
      simp only [attachTo, hk]
      rcases hattach : k.doc.attach client writable lease with ⟨result, doc⟩
      obtain ⟨hkeep, henter⟩ := OpenDocument.attach_readers hattach
      have hread : ∀ other, (other, id) ∈ s.attached → id ∈ s.reg.byId ∧ other ∈ doc.readers := by
        intro other hother
        obtain ⟨-, k', hk', hreader⟩ := h.linked.readers other id hother
        obtain rfl := Option.some.inj (hk.symm.trans hk')
        exact ⟨hin, hkeep other hreader⟩
      cases result with
      | error e =>
        exact ⟨hends.linked.put hk (fun _ _ hc _ => hc) hread (hcalm doc), hends.locks⟩
      | ok u =>
        refine ⟨hends.linked.put hk ?_ ?_ (hcalm doc), hends.locks⟩
        · intro other i hother hi
          rcases Finset.mem_insert.mp hother with heq | hother
          · exact absurd (Prod.mk.inj heq).2 hi
          · exact hother
        · intro other hother
          rcases Finset.mem_insert.mp hother with heq | hother
          · obtain ⟨rfl, -⟩ := Prod.mk.inj heq
            exact ⟨hin, henter rfl⟩
          · exact hread other hother

theorem Invariant.insert (h : s.Invariant) {documentId lease : String} {text : Rope}
    (hclear : s.Clear (.insert which documentId text lease)) :
    (s.step dg (.insert which documentId text lease)).Invariant := by
  rw [AttachmentState.step]
  cases hp : s.pending which false with
  | none => exact h
  | some p =>
    obtain ⟨hget, htarget⟩ := pending_eq_some hp
    have hnone : p.target = none := by simpa using htarget
    cases hfresh : s.reg.documents documentId with
    | some k => exact h
    | none =>
      have hends := h.endFailed which
      simp only [insertOpened]
      rcases hattach : (openedDocument dg documentId p.key.projectId text).attach p.client p.writable
        lease with ⟨result, doc⟩
      have hid : doc.id = documentId := by
        obtain ⟨readers, writer, hsnd⟩ := OpenDocument.attach_snd
          (openedDocument dg documentId p.key.projectId text) p.client p.writable lease
        rw [hattach] at hsnd
        rw [show doc = _ from hsnd]
        rfl
      cases result with
      | error e => exact hends
      | ok u =>
        refine ⟨?_, hends.locks⟩
        subst hid
        refine hends.linked.insert hfresh (h.linked.free _ ⟨p, List.mem_of_getElem? hget, hnone, rfl⟩)
          ?_ (not_unread_eraseIdx h.locks hget) ((OpenDocument.attach_readers hattach).2 rfl)
        rintro x ⟨e, he, hx⟩
        exact hclear p hget hnone e he x hx

/-- The client leaves a document. -/
theorem Invariant.leave (h : s.Invariant) {k : KeyedDocument} (hk : s.reg.documents id = some k) :
    (s.leave id client k).Invariant := by
  refine ⟨h.linked.put hk ?_ ?_ ?_, h.locks⟩
  · intro other i hother hi
    exact Finset.mem_of_mem_erase hother
  · intro other hother
    obtain ⟨hne, hold⟩ := Finset.mem_erase.mp hother
    obtain ⟨hin, k', hk', hreader⟩ := h.linked.readers other id hold
    obtain rfl := Option.some.inj (hk.symm.trans hk')
    exact ⟨hin, OpenDocument.mem_readers_detachClient hreader fun heq => hne (by rw [heq])⟩
  · intro hcalm
    refine OpenDocument.isEvictable_detachClient ?_ client
    rcases hcalm with hout | ⟨x, hx, rfl⟩
    · exact h.linked.gone id k hk hout
    · obtain ⟨k', hk', -, hev, -⟩ := h.linked.doomed x hx
      obtain rfl := Option.some.inj (hk.symm.trans hk')
      exact hev

/-- A removal is decided about a document that nobody has. -/
theorem Invariant.doom (h : s.Invariant) {evictions : List Eviction} {k : KeyedDocument}
    (hk : s.reg.documents id = some k) (hev : k.doc.isEvictable = true)
    (hin : id ∉ s.reg.byId → s.reg.byKey k.key.toKeyString = none)
    (hnew : doomed evictions ⊆ Insert.insert (id, k.key.toKeyString) (doomed s.evictions)) :
    Invariant { s with evictions := evictions } := by
  have hl := h.linked
  refine ⟨⟨hl.readers, hl.keys, hl.targets, hl.gone, fun x hx => ?_, hl.free⟩, h.locks⟩
  rcases hnew hx with rfl | hold
  · exact ⟨k, hk, rfl, hev, hin⟩
  · exact hl.doomed x hold

theorem Invariant.detachDocument (h : s.Invariant) {projectId : String}
    (hclear : s.Clear (.detachDocument id projectId client)) :
    (s.step dg (.detachDocument id projectId client)).Invariant := by
  rw [AttachmentState.step]
  cases hk : s.reg.documents id with
  | none => exact h
  | some k =>
    simp only
    by_cases hproject : k.doc.projectId ≠ projectId
    · rw [if_pos hproject]
      exact h
    rw [if_neg hproject]
    have hleft : (s.leave id client k).Invariant := h.leave hk
    by_cases hev : (k.doc.detachClient client).isEvictable = true
    · rw [if_pos hev]
      have hheld : (s.leave id client k).reg.documents id =
          some ⟨k.key, k.doc.detachClient client⟩ := Function.update_self _ _ _
      refine hleft.doom hheld hev (fun hout => ?_) ?_
      · rcases hclear with hin | hnone
        · exact absurd hin hout
        · exact hnone k hk (not_not.mp hproject)
      · rintro x ⟨e, he, hx⟩
        rcases List.mem_append.mp he with hold | hnew
        · exact .inr ⟨e, hold, hx⟩
        · obtain rfl := List.mem_singleton.mp hnew
          exact .inl (List.mem_singleton.mp hx)
    · rw [if_neg hev]
      exact hleft

theorem Invariant.visit (h : s.Invariant) (which : ℕ) (id : String) :
    (s.step dg (.visit which id)).Invariant := by
  rw [AttachmentState.step]
  cases he : s.evictions[which]? with
  | none => exact h
  | some e =>
    cases hk : s.reg.find id with
    | none => exact h
    | some k =>
      simp only
      by_cases hev : (e.sweeping && k.doc.isEvictable) = true
      · rw [if_pos hev]
        have hfound : id ∈ s.reg.byId ∧ s.reg.documents id = some k := by
          rw [find] at hk
          split_ifs at hk with hin
          exact ⟨hin, hk⟩
        refine h.doom hfound.2 ((Bool.and_eq_true _ _).mp hev).2 (absurd hfound.1) ?_
        rintro x ⟨e', he', hx⟩
        rcases List.mem_or_eq_of_mem_set he' with hold | rfl
        · exact .inr ⟨e', hold, hx⟩
        · rcases List.mem_append.mp hx with hold | hnew
          · exact .inr ⟨e, List.mem_of_getElem? he, hold⟩
          · exact .inl (List.mem_singleton.mp hnew)
      · rw [if_neg hev]
        exact h

theorem Invariant.evict (h : s.Invariant) (which : ℕ) :
    (s.step dg (.evict which)).Invariant := by
  rw [AttachmentState.step]
  cases he : s.evictions[which]? with
  | none => exact h
  | some e =>
    have hgone := h.linked.removeAll (fun x hx => ⟨e, List.mem_of_getElem? he, hx⟩ :
      ∀ x ∈ e.found, ∃ e' ∈ s.evictions, x ∈ e'.found)
    refine ⟨hgone.mono (Finset.Subset.refl _) ?_ (Set.Subset.refl _), h.locks⟩
    rintro x ⟨e', he', hx⟩
    exact ⟨e', List.mem_of_mem_eraseIdx he', hx⟩

/-- A step on a document that fails when nobody has it, and drops no reader. -/
theorem Invariant.onHeld (h : s.Invariant) {α : Type} (id : String)
    (f : OpenDocument → Except DocumentServiceError (α × OpenDocument))
    (hfails : ∀ doc a doc', doc.isEvictable = true → f doc ≠ .ok (a, doc'))
    (hreaders : ∀ doc a doc', f doc = .ok (a, doc') → doc'.readers = doc.readers) :
    Invariant { s with reg := s.reg.onHeld id f } :=
  ⟨h.linked.onHeld hfails hreaders, h.locks⟩

theorem Invariant.step (h : s.Invariant) {a : AttachmentStep} (hclear : s.Clear a) :
    (s.step dg a).Invariant := by
  cases a with
  | lookup key client writable => exact h.lookup key client writable
  | attach which lease => exact h.attach hclear
  | insert which documentId text lease => exact h.insert hclear
  | failOpen which => exact h.endFailed which
  | acquireWriter id projectId client lease =>
    refine h.onHeld id (fun doc => doc.acquireWriterIn projectId client lease) ?_ ?_
    · intro doc a doc' hev hok
      have hreader := (OpenDocument.acquireWriterIn_eq_ok hok).1
      rw [(OpenDocument.isEvictable_iff.mp hev).2.1] at hreader
      cases hreader
    · intro doc a doc' hok
      obtain ⟨-, writer, rfl⟩ := OpenDocument.acquireWriterIn_eq_ok hok
      rfl
  | change turn id client r =>
    refine h.onHeld id (fun doc => doc.changeIn client dg turn r) ?_ ?_
    · intro doc a doc' hev hok
      have hlease := (OpenDocument.change_cases (OpenDocument.changeIn_eq_ok hok)).2
      rw [OpenDocument.holdsLease, (OpenDocument.isEvictable_iff.mp hev).2.2] at hlease
      cases hlease
    · intro doc a doc' hok
      rcases (OpenDocument.change_cases (OpenDocument.changeIn_eq_ok hok)).1 with rfl | hchanged
      · rfl
      · rw [hchanged.frame]
  | detachDocument id projectId client => exact h.detachDocument hclear
  | leave id client =>
    rw [AttachmentState.step]
    cases hk : s.reg.documents id with
    | none => exact h
    | some k => exact h.leave hk
  | startSweep =>
    refine ⟨h.linked.mono (Finset.Subset.refl _) ?_ (Set.Subset.refl _), h.locks⟩
    rintro x ⟨e, he, hx⟩
    rcases List.mem_append.mp he with hold | hnew
    · exact ⟨e, hold, hx⟩
    · obtain rfl := List.mem_singleton.mp hnew
      cases hx
  | visit which id => exact h.visit which id
  | evict which => exact h.evict which

theorem Invariant.run (h : s.Invariant) {steps : List AttachmentStep}
    (hclear : ClearRun dg s steps) : (s.run dg steps).Invariant := by
  induction steps generalizing s with
  | nil => exact h
  | cons a steps ih => exact ih (h.step hclear.1) hclear.2

theorem invariant_start : start.Invariant where
  linked := by
    refine ⟨?_, ?_, ?_, ?_, ?_, fun _ _ => rfl⟩
    · intro client id hc
      exact absurd hc (Finset.notMem_empty _)
    · intro keyString id hid
      cases hid
    · intro id hid
      exact absurd hid (Finset.notMem_empty _)
    · intro id k hk
      cases hk
    · rintro x ⟨e, he, -⟩
      cases he
  locks := List.nodup_nil

instance decidableClearRun (dg : Digests) :
    (s : AttachmentState) → (steps : List AttachmentStep) → Decidable (ClearRun dg s steps)
  | _, [] => inferInstanceAs (Decidable True)
  | s, a :: steps =>
    have : Decidable (ClearRun dg (s.step dg a) steps) :=
      decidableClearRun dg (s.step dg a) steps
    inferInstanceAs (Decidable (s.Clear a ∧ ClearRun dg (s.step dg a) steps))

/-- In every run in which nothing comes between a lookup and what is done with it, the
clients can rely on the service. -/
theorem clearRun_consistent (dg : Digests) (steps : List AttachmentStep)
    (h : ClearRun dg start steps) : (start.run dg steps).Consistent :=
  (invariant_start.run h).consistent

def sourceKey : DocumentKey := ⟨"p", "w", .workspace, "main.rs"⟩

def noDigests : Digests := ⟨fun _ => "", fun _ => ""⟩

theorem clearRun_consistent_handover :
    (start.run noDigests [.lookup sourceKey "ada" true, .insert 0 "d" ['x'] "lease",
      .lookup sourceKey "bob" false, .attach 0 "", .detachDocument "d" "p" "ada",
      .acquireWriter "d" "p" "bob" "next", .detachDocument "d" "p" "bob", .evict 0]).Consistent :=
  clearRun_consistent noDigests _ (by decide)

/-- The second client is attached after the first one has left and before the removal that
was decided then. -/
theorem attached_to_removed :
    ¬(start.run noDigests [.lookup sourceKey "ada" false, .insert 0 "d" ['x'] "",
      .lookup sourceKey "bob" false, .detachDocument "d" "p" "ada", .attach 0 "",
      .evict 0]).Consistent := by
  intro h
  have hin := (h.readers "bob" "d" (by decide)).1
  exact absurd hin (by decide)

end AttachmentState

end Codegg.Documents
