import KulloClient.ApiImpl.ShadowRows

/-!
# What a sync leaves of a message

The rows of a message, without the replica they stand for: what they say of the last version, what a merge makes of
them, what becomes of a message that was deleted here, and what a tombstone leaves.
-/

namespace KulloClient

open Relational (Table)
open Imperative

/-- The rows say which version was synchronized last: the copy, or the row itself if there is none. -/
structure Records (cur : MessageRow) (old : Option MessageRow) (version : Version) : Prop where
  lastModified : (old.getD cur).lastModified = version.lastModified
  states : ∀ base, version.states = some base → (old.getD cur).state = base

/-- A state after a merge: the value of this device if it was changed here, and the value of the server otherwise. -/
def MessageRow.threeWay (cur : MessageRow) (old : Option MessageRow) (remote : MessageRow) (state : MessageState) : Bool :=
  match old with
  | none => remote.state state
  | some old => if cur.state state ≠ old.state state then cur.state state else remote.state state

/-- What a version of the server makes of the rows. -/
structure Merges (cur : MessageRow) (old : Option MessageRow) (remote cur' : MessageRow) (old' : Option MessageRow) :
    Prop where
  deleted : cur'.deleted = cur.deleted
  states : cur.deleted = false → cur'.state = cur.threeWay old remote
  kept : cur.deleted = true → cur'.state = cur.state
  dropped : old.isSome = true → old' = none → cur'.deleted = false ∧ cur'.state = remote.state

namespace ShadowSession

section Merge

variable {cur : MessageRow} {old : Option MessageRow} {version : Version}

theorem Shadow.records (h : Shadow cur old version) : Records cur old version := by
  cases old with
  | none => exact ⟨h.lastModified rfl, fun base hbase => (h.synced base hbase rfl).2⟩
  | some o => exact ⟨h.copied o rfl, fun base hbase => (h.shadow base hbase o rfl).2⟩

end Merge

variable {P : Platform} {account : MessagesSyncer.Account} {s s' : ShadowSession} {id : IdType}

/-- The message is deleted, here or on the server. -/
def Gone : MessageCopy → Prop
  | .removed _ | .buried => True
  | .absent | .alive _ => False

private theorem Gone.edit {c : MessageCopy} (h : Gone c) (state : MessageState) (value : Bool) : Gone (c.edit state value) := by
  cases c with
  | absent => exact h.elim
  | alive replica => exact h.elim
  | removed base => exact h
  | buried => exact h

private theorem Gone.remove {c : MessageCopy} (h : Gone c) : Gone c.remove := by
  cases c with
  | absent => exact h.elim
  | alive replica => exact h.elim
  | removed base => exact h
  | buried => exact h

private theorem Gone.receive {c : MessageCopy} (h : Gone c) (version : Option Version) : Gone (c.receive version) := by
  unfold MessageCopy.receive
  split
  · exact h
  · trivial
  · cases c with
    | absent => exact h.elim
    | alive replica => exact h.elim
    | removed base => exact h
    | buried => exact h

private theorem Gone.push {c : MessageCopy} (h : Gone c) : Gone c.push := by
  cases c with
  | absent => exact h.elim
  | alive replica => exact h.elim
  | removed base => trivial
  | buried => exact h

theorem Gone.step (h : Shadowed s) {op : ShadowOp} (hguard : guard s op) (hstep : Step P account s op s')
    (hgone : Gone (view s id)) : Gone (view s' id) := by
  rw [(step_refines h hguard hstep).2 id]
  unfold effect
  cases op with
  | setState c state msgId value =>
    dsimp only
    split
    · exact hgone.edit state value
    · exact hgone
  | remove c msgId =>
    dsimp only
    split
    · exact hgone.remove
    · exact hgone
  | process r =>
    dsimp only
    split
    · exact hgone.receive _
    · exact hgone
  | uploadModification u msgId =>
    dsimp only
    split
    · exact hgone.push
    · exact hgone
  | store dateSent draft conv msgSent delivery =>
    dsimp only
    split
    · next hid =>
      -- a message with this id is stored already
      unfold Step perform at hstep
      dsimp only at hstep
      split at hstep
      · next hstore =>
        have hfree := (MetaSession.store_writes hstore).1
        have habsent : view s id = .absent := by
          unfold view
          rw [← hid, hfree]
          rfl
        rw [habsent] at hgone
        exact hgone
      · cases hstep
    · exact hgone

theorem Shadowed.gone (h : Shadowed s) {cur : MessageRow} (hcur : currentRow s.db id = some cur)
    (hdeleted : cur.deleted = true) : Gone (view s id) := by
  obtain ⟨version, hversion, hshadow⟩ := h.stored id cur hcur
  have hview : view s id = copyOf (some cur) (some version) := by
    unfold view
    rw [hcur, hversion]
  rw [hview]
  rcases hshadow.cases with ⟨-, -, hcopy⟩ | ⟨base, -, ⟨-, hcopy⟩ | ⟨halive, -⟩⟩
  · rw [hcopy]
    trivial
  · rw [hcopy]
    trivial
  · rw [hdeleted] at halive
    cases halive

/-- Nothing but the messages is written when a row is cleared. -/
private theorem clear_messages {httpMsg : HttpMessage} {cur : MessageRow} (hold : cur.old = false) {db db' : Db}
    (h : (do
      let db ← (MessageDao.ofRow cur).dropOld db
      let saved ←
        (((MessageDao.ofRow cur).clearData.setLastModified httpMsg.lastModified).2.setDeleted true).2.save .no db
      .ok saved.2.2) = .ok db') : ∃ messages, db' = { db with messages := messages } := by
  have hdrop : (MessageDao.ofRow cur).dropOld db =
      .ok { db with messages := db.messages.deleteWhere (fun r => r.key == (cur.id, true)) } := by
    unfold MessageDao.dropOld
    rw [show (MessageDao.ofRow cur).row.old = false from hold]
    rfl
  have hstays := ((MessageDao.ofRow cur).clearData_stays.trans
    (MessageDao.setLastModified_stays _ httpMsg.lastModified)).trans (MessageDao.setDeleted_stays _ true)
  have hloaded : MessagesSyncer.Loaded (.ofRow cur) := ⟨rfl, hold⟩
  obtain ⟨messages, hsave, -⟩ := MessageDao.save_no_writes (hloaded.stays hstays)
    { db with messages := db.messages.deleteWhere (fun r => r.key == (cur.id, true)) }
  rw [hdrop, ok_bind, hsave, ok_bind] at h
  cases h
  exact ⟨messages, rfl⟩

private theorem clearLocal_eq_ok {httpMsg : HttpMessage} {cur : MessageRow} (hold : cur.old = false) {db db' : Db}
    (h : MessagesSyncer.clearLocal httpMsg (.ofRow cur) db = .ok db') :
    ∃ messages senders, senders.find? cur.id = none ∧
      db' = { AttachmentDao.deleteAttachments db false cur.id with messages := messages, senders := senders } := by
  unfold MessagesSyncer.clearLocal at h
  obtain ⟨sender, hsender, h⟩ := bind_eq_ok.mp h
  have hsenders : (AttachmentDao.deleteAttachments db false cur.id).senders = db.senders := rfl
  unfold SenderDao.load at hsender
  dsimp only [MessageDao.ofRow] at hsender
  rw [hsenders] at hsender
  cases hfind : db.senders.find? cur.id with
  | none =>
    rw [hfind] at hsender
    cases hsender
    obtain ⟨messages, rfl⟩ := clear_messages hold h
    exact ⟨messages, db.senders, hfind, rfl⟩
  | some row =>
    rw [hfind] at hsender
    obtain ⟨address, -, hsender⟩ := bind_eq_ok.mp hsender
    cases hsender
    obtain ⟨messages, rfl⟩ := clear_messages hold h
    refine ⟨messages, db.senders.deleteWhere (fun r => r.messageId == row.messageId), ?_, rfl⟩
    have hkey : row.messageId = cur.id := Table.key_of_find? hfind
    have hdeleted : (db.senders.deleteWhere (fun r => r.messageId == row.messageId)).find? cur.id = none := by
      rw [Table.find?_deleteWhere, hfind]
      simp
    exact hdeleted

section

open MetaSession (sharing alice zeroIv sharingMeta letter letterKeys storedLetter)

/-- A message with what depends on it. -/
def letterDb (row : MessageRow) : Db where
  __ := letterKeys
  messages := (∅ : Table MessageRow.key).insertOrIgnore row
  senders := (∅ : Table SenderRow.messageId).insertOrIgnore ⟨1, "Bob", "bob#kullo.test", "", "", none⟩
  attachments := (∅ : Table AttachmentRow.key).insertOrIgnore ⟨false, 1, 0, "a.txt", "text/plain", 3, "", ""⟩
  attachmentsContent := (∅ : Table AttachmentContentRow.key).insertOrIgnore ⟨false, 1, 0, none⟩
  delivery := [⟨1, "carol#kullo.test", "unsent", none, none, none, none⟩]

def next (s : ShadowSession) (op : ShadowOp) : ShadowSession := (perform sharing alice op s).getD s

/-- Caches are fresh, and the server answers about the message it was asked for; it may send any version. -/
def Fresh (s : ShadowSession) (op : ShadowOp) : Prop :=
  match op with
  | .setState c _ msgId _ | .remove c msgId => Shows c s.db msgId
  | .uploadModification u id => ∀ request idlm, u.answer request = .ok idlm → idlm.id = id
  | .process _ | .store .. => True

end

end ShadowSession

end KulloClient
