import KulloClient.Db.Schema
import Mathlib.Data.List.Sort

/-!
# AttachmentDao

The rows of `attachments` in memory, and the queries of the attachment loop.  The content of an attachment is a row of
its own and is not part of the dao.
-/

namespace KulloClient

/-- `Dao::IsDraft`. -/
abbrev IsDraft := Bool

structure AttachmentDao where
  row : AttachmentRow
  dirty : Bool := true
  storedInDb : Bool := false
  deriving DecidableEq

namespace AttachmentDao

/-- A new dao after `setDraft`, `setMessageId` and `setIndex`. -/
def new (draft : IsDraft) (messageId index : IdType) : AttachmentDao where
  row := ⟨draft, messageId, index, "", "", 0, "", ""⟩

def ofRow (r : AttachmentRow) : AttachmentDao := ⟨r, false, true⟩

/-- `AttachmentDao::load`. -/
def load (db : Db) (draft : IsDraft) (messageId index : IdType) : Option AttachmentDao :=
  (db.attachments.find? (draft, messageId, index)).map ofRow

/-- `allForMessage`, in the order of the indices. -/
def allForMessage (db : Db) (draft : IsDraft) (messageId : IdType) : List AttachmentDao :=
  ((db.attachments.select (fun r => r.draft == draft && r.messageId == messageId)).insertionSort
    (fun r r' => r.index ≤ r'.index)).map ofRow

/-- `all`, ordered by the message and the index. -/
def all (db : Db) (draft : IsDraft) : List AttachmentDao :=
  ((db.attachments.select (fun r => r.draft == draft)).insertionSort
    (fun r r' => r.messageId < r'.messageId ∨ r.messageId = r'.messageId ∧ r.index ≤ r'.index)).map ofRow

/-- `idForNewDraftAttachment`: the maximum index + 1 or, if none exists, 0. -/
def idForNewDraftAttachment (db : Db) (conversationId : IdType) : IdType :=
  match ((db.attachments.select (fun r => r.draft && r.messageId == conversationId)).map AttachmentRow.index).max? with
  | some index => index + 1
  | none => 0

/-- `a NATURAL JOIN attachments_content ac WHERE length(ac.content) IS NULL AND a.draft = 0`. -/
def downloadable (db : Db) : List AttachmentRow :=
  db.attachments.select (fun r => !r.draft &&
    ((db.attachmentsContent.find? r.key).map (fun c => c.content.isNone)).getD false)

/-- `msgIdForFirstDownloadable`; the source returns -1 for `none`. -/
def msgIdForFirstDownloadable (db : Db) : Option IdType :=
  ((downloadable db).map AttachmentRow.messageId).min?

/-- `allAttachmentsDownloaded`, which does not look at the draft flag. -/
def allAttachmentsDownloaded (db : Db) (msgId : IdType) : Bool :=
  (db.attachmentsContent.select (fun c => c.messageId == msgId && c.content.isNone)).isEmpty

/-- `sizeOfAllForMessage`. -/
def sizeOfAllForMessage (db : Db) (draft : IsDraft) (messageId : IdType) : Nat :=
  ((db.attachments.select (fun r => r.draft == draft && r.messageId == messageId)).map AttachmentRow.size).sum

/-- `sizeOfAllDownloadable`. -/
def sizeOfAllDownloadable (db : Db) : Nat :=
  ((downloadable db).map AttachmentRow.size).sum

def assign {α : Type} [DecidableEq α] (d : AttachmentDao) (get : AttachmentRow → α)
    (set : AttachmentRow → α → AttachmentRow) (v : α) : AttachmentDao :=
  if get d.row = v then d else { d with row := set d.row v, dirty := true }

def setFilename (d : AttachmentDao) (v : String) : AttachmentDao :=
  d.assign AttachmentRow.filename (fun r v => { r with filename := v }) v

def setMimeType (d : AttachmentDao) (v : String) : AttachmentDao :=
  d.assign AttachmentRow.mimeType (fun r v => { r with mimeType := v }) v

def setSize (d : AttachmentDao) (v : Nat) : AttachmentDao :=
  d.assign AttachmentRow.size (fun r v => { r with size := v }) v

def setHash (d : AttachmentDao) (v : String) : AttachmentDao :=
  d.assign AttachmentRow.hash (fun r v => { r with hash := v }) v

def setNote (d : AttachmentDao) (v : String) : AttachmentDao :=
  d.assign AttachmentRow.note (fun r v => { r with note := v }) v

/-- `save`: a new attachment gets a content row without content. -/
def save (d : AttachmentDao) (db : Db) : Except Exn Db :=
  if d.dirty then
    if d.storedInDb then .ok { db with attachments := db.attachments.replace d.row }
    else do
      let contents ← insertRow db.attachmentsContent ⟨d.row.draft, d.row.messageId, d.row.index, none⟩
      let attachments ← insertRow db.attachments d.row
      .ok { db with attachmentsContent := contents, attachments := attachments }
  else .ok db

/-- `content`: nothing for a content column that is NULL; a missing content row raises. -/
def content (d : AttachmentDao) (db : Db) : Except Exn Bytes :=
  match db.attachmentsContent.find? d.row.key with
  | none => .error (.sqliteException "query returned no rows")
  | some c => .ok (c.content.getD [])

/-- `deletePermanently`. -/
def deletePermanently (d : AttachmentDao) (db : Db) : Db :=
  { db with
    attachments := db.attachments.deleteWhere (fun r => r.key == d.row.key)
    attachmentsContent := db.attachmentsContent.deleteWhere (fun c => c.key == d.row.key) }

/-- `deleteAttachmentsForMessage` and `deleteAttachmentsForDraft`. -/
def deleteAttachments (db : Db) (draft : IsDraft) (messageId : IdType) : Db :=
  { db with
    attachments := db.attachments.deleteWhere (fun r => r.draft == draft && r.messageId == messageId)
    attachmentsContent := db.attachmentsContent.deleteWhere (fun c => c.draft == draft && c.messageId == messageId) }

/-- `convertToMessageAttachment`: the two rows move from the draft to the message. -/
def convertToMessageAttachment (d : AttachmentDao) (msgId : IdType) (db : Db) : Except Exn Db := do
  kulloAssert d.row.draft "draft_"
  kulloAssert d.storedInDb "storedInDb_"
  kulloAssert (!d.dirty) "!dirty_"
  match db.attachments.rekeyWhere? (fun r => r.key == d.row.key) (fun r => { r with draft := false, messageId := msgId }),
      db.attachmentsContent.rekeyWhere? (fun c => c.key == d.row.key)
        (fun c => { c with draft := false, messageId := msgId }) with
  | some attachments, some contents =>
    .ok { db with attachments := attachments, attachmentsContent := contents }
  | _, _ => .error sqliteConstraint

/-- A row of a draft, as it is in a message. -/
def convertedRow (msgId : IdType) (r : AttachmentRow) : AttachmentRow := { r with draft := false, messageId := msgId }

def convertedContent (msgId : IdType) (c : AttachmentContentRow) : AttachmentContentRow :=
  { c with draft := false, messageId := msgId }

/-- The row after an assignment, for a column whose own value assigned to it changes nothing. -/
theorem assign_row {α : Type} [DecidableEq α] {d : AttachmentDao} {get : AttachmentRow → α}
    {set : AttachmentRow → α → AttachmentRow} {v : α} (h : set d.row (get d.row) = d.row) :
    (d.assign get set v).row = set d.row v := by
  unfold assign
  split
  · next hv => rw [← hv, h]
  · rfl

/-- A dao that was never stored. -/
structure IsNew (d : AttachmentDao) : Prop where
  dirty : d.dirty = true
  storedInDb : d.storedInDb = false

theorem IsNew.assign {α : Type} [DecidableEq α] {d : AttachmentDao} {get : AttachmentRow → α}
    {set : AttachmentRow → α → AttachmentRow} {v : α} (h : d.IsNew) : (d.assign get set v).IsNew := by
  unfold AttachmentDao.assign
  split
  · exact h
  · exact ⟨rfl, h.storedInDb⟩

@[simp] theorem setFilename_row (d : AttachmentDao) (v : String) :
    (d.setFilename v).row = { d.row with filename := v } := assign_row rfl

@[simp] theorem setMimeType_row (d : AttachmentDao) (v : String) :
    (d.setMimeType v).row = { d.row with mimeType := v } := assign_row rfl

@[simp] theorem setSize_row (d : AttachmentDao) (v : Nat) : (d.setSize v).row = { d.row with size := v } :=
  assign_row rfl

@[simp] theorem setHash_row (d : AttachmentDao) (v : String) : (d.setHash v).row = { d.row with hash := v } :=
  assign_row rfl

@[simp] theorem setNote_row (d : AttachmentDao) (v : String) : (d.setNote v).row = { d.row with note := v } :=
  assign_row rfl

/-! ### The rows of the drafts -/

/-- The row of a draft attachment. -/
def draftRow (db : Db) (convId attId : IdType) : Option AttachmentRow := db.attachments.find? (true, convId, attId)

theorem draftRow_idForNewDraftAttachment (db : Db) (convId : IdType) :
    draftRow db convId (idForNewDraftAttachment db convId) = none := by
  unfold draftRow
  rw [Relational.Table.find?_eq_none]
  intro r hr hkey
  have hdraft : r.draft = true := congrArg Prod.fst hkey
  have hconv : r.messageId = convId := congrArg (fun k => k.2.1) hkey
  have hindex : r.index = idForNewDraftAttachment db convId := congrArg (fun k => k.2.2) hkey
  have hmem : r.index ∈
      (db.attachments.select (fun r => r.draft && r.messageId == convId)).map AttachmentRow.index := by
    apply List.mem_map_of_mem
    rw [Relational.Table.mem_select]
    exact ⟨hr, by simp [hdraft, hconv]⟩
  unfold idForNewDraftAttachment at hindex
  split at hindex
  · next index hmax =>
    have hle := (List.max?_eq_some_iff.mp hmax).2 r.index hmem
    rw [hindex] at hle
    exact Nat.not_succ_le_self index hle
  · next hnone =>
    rw [List.max?_eq_none_iff] at hnone
    rw [hnone] at hmem
    cases hmem

theorem draftRow_deletePermanently (db : Db) {d : AttachmentDao} (hd : d.row.draft = true) (convId attId : IdType) :
    draftRow (d.deletePermanently db) convId attId =
      if (d.row.messageId, d.row.index) = (convId, attId) then none else draftRow db convId attId := by
  unfold draftRow deletePermanently
  rw [Relational.Table.find?_deleteWhere]
  cases hrow : db.attachments.find? (true, convId, attId) with
  | none => simp
  | some r =>
    have hkey : r.key = (true, convId, attId) := Relational.Table.key_of_find? hrow
    have hown : d.row.key = (true, d.row.messageId, d.row.index) := by
      unfold AttachmentRow.key
      rw [hd]
    simp only [Option.filter_some, hkey, hown]
    by_cases hid : (d.row.messageId, d.row.index) = (convId, attId)
    · rw [if_pos hid, hid]
      simp
    · rw [if_neg hid]
      have hne : ¬ ((true, convId, attId) : AttachmentKey) = (true, d.row.messageId, d.row.index) := by
        intro heq
        exact hid (congrArg Prod.snd heq).symm
      simp [hne]

theorem draftRow_deleteAttachments (db : Db) (convId convId' attId : IdType) :
    draftRow (deleteAttachments db true convId) convId' attId =
      if convId = convId' then none else draftRow db convId' attId := by
  unfold draftRow deleteAttachments
  rw [Relational.Table.find?_deleteWhere]
  cases hrow : db.attachments.find? (true, convId', attId) with
  | none => simp
  | some r =>
    have hkey : r.key = (true, convId', attId) := Relational.Table.key_of_find? hrow
    have hdraft : r.draft = true := congrArg Prod.fst hkey
    have hconv : r.messageId = convId' := congrArg (fun k => k.2.1) hkey
    by_cases hid : convId = convId'
    · simp [hdraft, hconv, hid]
    · have hne : ¬ convId' = convId := Ne.symm hid
      simp [hdraft, hconv, hid, hne]

theorem draftRow_eq_some {db : Db} {convId attId : IdType} {r : AttachmentRow} :
    draftRow db convId attId = some r ↔
      r ∈ db.attachments ∧ r.draft = true ∧ r.messageId = convId ∧ r.index = attId := by
  unfold draftRow
  rw [Relational.Table.find?_eq_some]
  simp [AttachmentRow.key]

theorem mem_allForMessage {db : Db} {draft : IsDraft} {messageId : IdType} {d : AttachmentDao} :
    d ∈ allForMessage db draft messageId ↔
      ∃ r ∈ db.attachments, (r.draft = draft ∧ r.messageId = messageId) ∧ ofRow r = d := by
  simp [allForMessage, and_assoc]

theorem mem_all {db : Db} {draft : IsDraft} {d : AttachmentDao} :
    d ∈ all db draft ↔ ∃ r ∈ db.attachments, r.draft = draft ∧ ofRow r = d := by
  simp [all, and_assoc]

theorem nodup_all (db : Db) (draft : IsDraft) : ((all db draft).map fun d => (d.row.messageId, d.row.index)).Nodup := by
  have hkeys : (all db draft).map (fun d => (d.row.messageId, d.row.index)) =
      ((db.attachments.select (fun r => r.draft == draft)).insertionSort
        (fun r r' => r.messageId < r'.messageId ∨ r.messageId = r'.messageId ∧ r.index ≤ r'.index)).map
        (fun r => (r.messageId, r.index)) := by
    unfold all
    rw [List.map_map]
    rfl
  rw [hkeys, ((List.perm_insertionSort _ _).map _).nodup_iff]
  refine (List.Nodup.of_map _ (db.attachments.nodup.sublist (List.filter_sublist.map _))).map_on ?_
  intro r hr r' hr' hid
  obtain ⟨hmem, hdraft⟩ := List.mem_filter.mp hr
  obtain ⟨hmem', hdraft'⟩ := List.mem_filter.mp hr'
  have hsame : r.draft = r'.draft := (beq_iff_eq.mp hdraft).trans (beq_iff_eq.mp hdraft').symm
  apply Relational.Table.eq_of_key_eq hmem hmem'
  exact Prod.ext hsame hid

end AttachmentDao

end KulloClient
