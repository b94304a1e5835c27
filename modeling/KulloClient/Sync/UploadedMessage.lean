import KulloClient.Sync.UploaderSteps

/-!
# The message an upload stores

What the transaction after an upload makes of the database: the attachments of the draft belong to the message, and
encoding the message gives what was encoded of the draft.
-/

namespace KulloClient

open Imperative
open Relational (Table)

/-! ### Converting the attachments of a draft -/

namespace AttachmentDao

/-- An attachment of a draft as it is loaded. -/
structure StoredDraft (d : AttachmentDao) : Prop where
  draft : d.row.draft = true
  storedInDb : d.storedInDb = true
  dirty : d.dirty = false

variable {msgId convId : IdType}

private theorem convert_eq_ok {d : AttachmentDao} {ks : List AttachmentKey} {db : Db} (hd : StoredDraft d)
    (ha : Table.Movable db.attachments (d.row.key :: ks) (convertedRow msgId))
    (hc : Table.Movable db.attachmentsContent (d.row.key :: ks) (convertedContent msgId)) :
    ∃ A C, d.convertToMessageAttachment msgId db = .ok { db with attachments := A, attachmentsContent := C } ∧
      A.rows = db.attachments.rows.map (Table.moved [d.row.key] (convertedRow msgId) AttachmentRow.key) ∧
      C.rows = db.attachmentsContent.rows.map
        (Table.moved [d.row.key] (convertedContent msgId) AttachmentContentRow.key) ∧
      Table.Movable A ks (convertedRow msgId) ∧ Table.Movable C ks (convertedContent msgId) := by
  obtain ⟨A, hA, hAr, hAm⟩ := ha.rekey (p := fun r => r.key == d.row.key) (fun r => beq_iff_eq)
  obtain ⟨C, hC, hCr, hCm⟩ := hc.rekey (p := fun c => c.key == d.row.key) (fun c => beq_iff_eq)
  refine ⟨A, C, ?_, hAr, hCr, hAm, hCm⟩
  unfold convertToMessageAttachment
  rw [hd.draft, hd.storedInDb, hd.dirty]
  have hA' : db.attachments.rekeyWhere? (fun r => r.key == d.row.key)
      (fun r => { r with draft := false, messageId := msgId }) = some A := hA
  have hC' : db.attachmentsContent.rekeyWhere? (fun c => c.key == d.row.key)
      (fun c => { c with draft := false, messageId := msgId }) = some C := hC
  simp only [kulloAssert_true, Bool.not_false, ok_bind, hA', hC']

/-- All attachments of a draft are converted. -/
theorem convertAll_eq_ok {ds : List AttachmentDao} {db : Db} (hd : ∀ d ∈ ds, StoredDraft d)
    (ha : Table.Movable db.attachments (ds.map fun d => d.row.key) (convertedRow msgId))
    (hc : Table.Movable db.attachmentsContent (ds.map fun d => d.row.key) (convertedContent msgId)) :
    ∃ A C, ds.foldlM (fun db d => d.convertToMessageAttachment msgId db) db =
        .ok { db with attachments := A, attachmentsContent := C } ∧
      A.rows = db.attachments.rows.map
        (Table.moved (ds.map fun d => d.row.key) (convertedRow msgId) AttachmentRow.key) ∧
      C.rows = db.attachmentsContent.rows.map
        (Table.moved (ds.map fun d => d.row.key) (convertedContent msgId) AttachmentContentRow.key) := by
  induction ds generalizing db with
  | nil => exact ⟨db.attachments, db.attachmentsContent, rfl, by simp, by simp⟩
  | cons d ds ih =>
    rw [List.forall_mem_cons] at hd
    rw [List.map_cons] at ha hc
    obtain ⟨A, C, hok, hA, hC, hAm, hCm⟩ := convert_eq_ok hd.1 ha hc
    have hrest := fun h => @ih { db with attachments := A, attachmentsContent := C } hd.2 hAm h
    obtain ⟨A', C', hok', hA', hC'⟩ := hrest hCm
    refine ⟨A', C', ?_, ?_, ?_⟩
    · rw [List.foldlM_cons, hok, ok_bind, hok']
    · rw [hA', List.map_cons, ← Table.map_moved ha, ← hA]
    · rw [hC', List.map_cons, ← Table.map_moved hc, ← hC]

end AttachmentDao

/-! ### A message id that is new -/

/-- Nothing is stored under the id of a message. -/
structure FreshMessage (db : Db) (msgId : IdType) : Prop where
  inRange : msgId ≤ idMax
  message : db.messages.find? (msgId, false) = none
  sender : db.senders.find? msgId = none
  attachments : ∀ r ∈ db.attachments, r.draft = false → r.messageId ≠ msgId
  contents : ∀ c ∈ db.attachmentsContent, c.draft = false → c.messageId ≠ msgId
  delivery : ∀ r ∈ db.delivery, r.messageId ≠ msgId

namespace AttachmentDao

variable {db : Db} {msgId convId : IdType}

/-- The keys of the attachments of a draft. -/
def draftKeys (db : Db) (convId : IdType) : List AttachmentKey :=
  (allForMessage db true convId).map fun d => d.row.key

private theorem mem_draftKeys {k : AttachmentKey} :
    k ∈ draftKeys db convId ↔ ∃ r ∈ db.attachments, (r.draft = true ∧ r.messageId = convId) ∧ r.key = k := by
  unfold draftKeys
  rw [List.mem_map]
  constructor
  · rintro ⟨d, hd, rfl⟩
    obtain ⟨r, hr, hkey, rfl⟩ := mem_allForMessage.mp hd
    exact ⟨r, hr, hkey, rfl⟩
  · rintro ⟨r, hr, hkey, rfl⟩
    exact ⟨ofRow r, mem_allForMessage.mpr ⟨r, hr, hkey, rfl⟩, rfl⟩

private theorem nodup_draftKeys (db : Db) (convId : IdType) : (draftKeys db convId).Nodup := by
  have hperm : (draftKeys db convId).Perm
      ((db.attachments.select (fun r => r.draft == true && r.messageId == convId)).map AttachmentRow.key) := by
    unfold draftKeys allForMessage
    rw [List.map_map]
    exact (List.perm_insertionSort _ _).map _
  exact hperm.nodup_iff.mpr ((List.Sublist.map _ List.filter_sublist).nodup db.attachments.nodup)

private theorem draftKeys_fst {k : AttachmentKey} (h : k ∈ draftKeys db convId) : k.1 = true ∧ k.2.1 = convId := by
  obtain ⟨r, _, hr, rfl⟩ := mem_draftKeys.mp h
  exact hr

private theorem key_mem_draftKeys {r : AttachmentRow} (hr : r ∈ db.attachments) :
    r.key ∈ draftKeys db convId ↔ r.draft = true ∧ r.messageId = convId := by
  constructor
  · exact fun h => draftKeys_fst h
  · exact fun h => mem_draftKeys.mpr ⟨r, hr, h, rfl⟩

private theorem movable_attachments (convId : IdType) (h : FreshMessage db msgId) :
    Table.Movable db.attachments (draftKeys db convId) (convertedRow msgId) where
  nodup := nodup_draftKeys db convId
  away := by
    intro r _ _ hmem
    exact Bool.noConfusion (draftKeys_fst hmem).1
  free := by
    intro r _ _ r' hr' heq
    simp only [AttachmentRow.key, convertedRow, Prod.mk.injEq] at heq
    exact h.attachments r' hr' heq.1.symm heq.2.1.symm
  inj := by
    intro r hr hk r' hr' hk' heq
    have h1 := draftKeys_fst hk
    have h2 := draftKeys_fst hk'
    simp only [AttachmentRow.key, convertedRow, Prod.mk.injEq] at heq h1 h2
    refine Table.eq_of_key_eq hr hr' ?_
    simp only [AttachmentRow.key, Prod.mk.injEq]
    exact ⟨h1.1.trans h2.1.symm, h1.2.trans h2.2.symm, heq.2.2⟩

private theorem movable_contents (h : FreshMessage db msgId) :
    Table.Movable db.attachmentsContent (draftKeys db convId) (convertedContent msgId) where
  nodup := nodup_draftKeys db convId
  away := by
    intro r _ _ hmem
    exact Bool.noConfusion (draftKeys_fst hmem).1
  free := by
    intro r _ _ r' hr' heq
    simp only [AttachmentContentRow.key, convertedContent, Prod.mk.injEq] at heq
    exact h.contents r' hr' heq.1.symm heq.2.1.symm
  inj := by
    intro r hr hk r' hr' hk' heq
    have h1 := draftKeys_fst hk
    have h2 := draftKeys_fst hk'
    simp only [AttachmentContentRow.key, convertedContent, Prod.mk.injEq] at heq h1 h2
    refine Table.eq_of_key_eq hr hr' ?_
    simp only [AttachmentContentRow.key, Prod.mk.injEq]
    exact ⟨h1.1.trans h2.1.symm, h1.2.trans h2.2.symm, heq.2.2⟩

end AttachmentDao

/-! ### The transaction -/

namespace MessagesUploader

variable {P : Platform} {account : Account} {it : Iteration P}

/-- The row of the stored message. -/
def messageRow (address : KulloAddress) (dateSent : String) (msgSent : MessageSent) (draft : DraftRow) : MessageRow where
  id := msgSent.id
  conversationId := draft.conversationId
  sender := address.toString
  lastModified := msgSent.lastModified
  read := true
  done := true
  dateSent := dateSent
  dateReceived := msgSent.dateReceived
  text := draft.text
  footer := draft.footer

/-- The row of its sender. -/
def senderRow (P : Platform) (address : KulloAddress) (msgId : IdType) (draft : DraftRow) : SenderRow where
  messageId := msgId
  name := draft.senderName
  address := address.toString
  organization := draft.senderOrganization
  avatarMimeType := draft.senderAvatarMimeType
  avatarHash := some (P.eightByteHash draft.senderAvatar)

/-- The database after a message was stored. -/
structure Stored (P : Platform) (address : KulloAddress) (dateSent : String) (draft : DraftRow) (msgSent : MessageSent)
    (delivery : List KulloAddress) (db db' : Db) : Prop where
  message : db'.messages.rows = db.messages.rows ++ [messageRow address dateSent msgSent draft]
  sender : db'.senders.rows = db.senders.rows ++ [senderRow P address msgSent.id draft]
  avatar : db'.avatars = db.avatars.insertOrIgnore ⟨P.eightByteHash draft.senderAvatar, draft.senderAvatar⟩
  attachments : db'.attachments.rows = db.attachments.rows.map (Table.moved
    (AttachmentDao.draftKeys db draft.conversationId) (AttachmentDao.convertedRow msgSent.id) AttachmentRow.key)
  contents : db'.attachmentsContent.rows = db.attachmentsContent.rows.map (Table.moved
    (AttachmentDao.draftKeys db draft.conversationId) (AttachmentDao.convertedContent msgSent.id)
    AttachmentContentRow.key)
  delivery : db'.delivery = (DeliveryDao.insertUnsent db msgSent.id delivery).delivery
  conversations : db'.conversations = db.conversations

theorem makeMessageDao_row (address : KulloAddress) (dateSent : String) (msgSent : MessageSent) (draft : DraftDao) :
    (makeMessageDao address dateSent msgSent draft).row = messageRow address dateSent msgSent draft.row := by
  simp [makeMessageDao, MessageDao.new, MessageRow.withState, messageRow]

theorem makeMessageDao_isNew (address : KulloAddress) (dateSent : String) (msgSent : MessageSent) (draft : DraftDao) :
    (makeMessageDao address dateSent msgSent draft).IsNew := by
  have hnew : (MessageDao.new msgSent.id).IsNew := ⟨rfl, rfl⟩
  exact hnew.assign.assign.assign.assign.assign.assign.assign.assign.assign

private theorem makeSender_toRow (P : Platform) (address : KulloAddress) (msgId : IdType) (draft : DraftDao) :
    (makeSender P address msgId draft).toRow = senderRow P address msgId draft.row := by
  unfold makeSender
  rw [SenderDao.setAvatarMimeType_toRow, SenderDao.setAvatarHash_toRow, SenderDao.setOrganization_toRow,
    SenderDao.setName_toRow, SenderDao.setMessageId_toRow]
  rfl

private theorem makeSender_isNew (P : Platform) (address : KulloAddress) (msgId : IdType) (draft : DraftDao) :
    (makeSender P address msgId draft).IsNew := by
  have hnew : (SenderDao.new address).IsNew := ⟨rfl, rfl⟩
  have hid : ((SenderDao.new address).setMessageId msgId).IsNew := hnew.assign rfl
  have hname : (((SenderDao.new address).setMessageId msgId).setName draft.row.senderName).IsNew :=
    hid.assign hid.storedInDb
  have horganization : ((((SenderDao.new address).setMessageId msgId).setName draft.row.senderName).setOrganization
      draft.row.senderOrganization).IsNew := hname.assign hname.storedInDb
  have hhash : (((((SenderDao.new address).setMessageId msgId).setName draft.row.senderName).setOrganization
      draft.row.senderOrganization).setAvatarHash (some (P.eightByteHash draft.row.senderAvatar))).IsNew :=
    horganization.assign horganization.storedInDb
  have hmime : ((((((SenderDao.new address).setMessageId msgId).setName draft.row.senderName).setOrganization
      draft.row.senderOrganization).setAvatarHash (some (P.eightByteHash draft.row.senderAvatar))).setAvatarMimeType
      draft.row.senderAvatarMimeType).IsNew := hhash.assign hhash.storedInDb
  exact hmime

theorem foldlM_save_clean {atts : List AttachmentDao} {db : Db} (h : ∀ att ∈ atts, att.dirty = false) :
    atts.foldlM (fun db att => att.save db) db = .ok db := by
  induction atts with
  | nil => rfl
  | cons att atts ih =>
    rw [List.forall_mem_cons] at h
    have hsave : att.save db = .ok db := by
      unfold AttachmentDao.save
      rw [h.1]
      rfl
    rw [List.foldlM_cons, hsave, ok_bind, ih h.2]

theorem mem_allForMessage_stored {db : Db} {convId : IdType} :
    ∀ d ∈ AttachmentDao.allForMessage db true convId, AttachmentDao.StoredDraft d := by
  intro d hd
  obtain ⟨r, _, hr, rfl⟩ := AttachmentDao.mem_allForMessage.mp hd
  exact ⟨hr.1, rfl, rfl⟩

/-- Under a new id the message is stored. -/
theorem store_eq_ok (address : KulloAddress) (dateSent : String) {draft : DraftDao} {conv : ConversationDao}
    {msgSent : MessageSent} {delivery : List KulloAddress} {db : Db} (hfresh : FreshMessage db msgSent.id)
    (hconv : ConversationDao.load db draft.row.conversationId = some conv) :
    ∃ db', store P address dateSent draft conv msgSent delivery db =
        .ok (⟨draft.row.conversationId, false, messageRow address dateSent msgSent draft.row⟩,
          (AttachmentDao.allForMessage db true draft.row.conversationId).map (converted msgSent.id), db') ∧
      Stored P address dateSent draft.row msgSent delivery db db' ∧ db'.drafts = db.drafts := by
  obtain ⟨A, C, hconvert, hA, hC⟩ := AttachmentDao.convertAll_eq_ok mem_allForMessage_stored
    (AttachmentDao.movable_attachments draft.row.conversationId hfresh)
    (AttachmentDao.movable_contents hfresh)
  -- the conversation is loaded and not changed, so its save does nothing
  have hconvId : conv.id = draft.row.conversationId ∧ conv.dirty = false := by
    obtain ⟨r, hr, rfl⟩ := Option.map_eq_some_iff.mp hconv
    have hkey : r.id = draft.row.conversationId := Table.key_of_find? hr
    exact ⟨hkey, rfl⟩
  have hrow := makeMessageDao_row address dateSent msgSent draft
  -- conversation and avatar hash are set already
  have hsame : ((makeMessageDao address dateSent msgSent draft).setConversationId conv.id).2 =
      makeMessageDao address dateSent msgSent draft := by
    have heq : (makeMessageDao address dateSent msgSent draft).row.conversationId = conv.id := by
      rw [hrow, hconvId.1]
      rfl
    unfold MessageDao.setConversationId MessageDao.assign
    rw [if_pos heq]
  have hsenderRow := makeSender_toRow P address (makeMessageDao address dateSent msgSent draft).row.id draft
  have hid : (makeMessageDao address dateSent msgSent draft).row.id = msgSent.id := by
    rw [hrow]
    rfl
  rw [hid] at hsenderRow
  have hhash : (makeSender P address msgSent.id draft).setAvatarHash
      (some (P.eightByteHash draft.row.senderAvatar)) = makeSender P address msgSent.id draft := by
    have heq : (makeSender P address msgSent.id draft).avatarHash =
        some (P.eightByteHash draft.row.senderAvatar) := congrArg SenderRow.avatarHash hsenderRow
    unfold SenderDao.setAvatarHash SenderDao.assign
    rw [if_pos heq]
  -- neither the sender nor the message is there yet
  have hsenderId : (makeSender P address msgSent.id draft).messageId = msgSent.id :=
    congrArg SenderRow.messageId hsenderRow
  have hsenderFree : db.senders.find? (makeSender P address msgSent.id draft).messageId = none := by
    rw [hsenderId]
    exact hfresh.sender
  have hmessageFree : db.messages.find? (makeMessageDao address dateSent msgSent draft).row.key = none := by
    rw [hrow]
    exact hfresh.message
  have hclean : ∀ att ∈ (AttachmentDao.allForMessage db true draft.row.conversationId).map (converted msgSent.id),
      att.dirty = false := by
    intro att hatt
    obtain ⟨d, hd, rfl⟩ := List.mem_map.mp hatt
    exact (mem_allForMessage_stored d hd).dirty
  have hconvSave : ∀ db', conv.save db' = .ok (false, conv, db') := by
    intro db'
    unfold ConversationDao.save
    rw [if_neg (by simp [hconvId.2])]
  unfold store MessagesSyncer.addMessage
  dsimp only
  rw [hid, hconvert, ok_bind, hconvSave, ok_bind]
  dsimp only
  have hinRange : (makeSender P address msgSent.id draft).messageId ≤ idMax := by
    rw [hsenderId]
    exact hfresh.inRange
  have hsenderSave := (makeSender_isNew P address msgSent.id draft).save
    (AvatarDao.store { db with attachments := A, attachmentsContent := C } (P.eightByteHash draft.row.senderAvatar)
      draft.row.senderAvatar) hinRange hsenderFree
  rw [hsame, hhash, hsenderSave, ok_bind,
    (makeMessageDao_isNew address dateSent msgSent draft).save (by exact hmessageFree), ok_bind]
  dsimp only
  rw [foldlM_save_clean hclean, ok_bind, ok_bind]
  refine ⟨{ db with
      messages := db.messages.insert (makeMessageDao address dateSent msgSent draft).row hmessageFree
      senders := db.senders.insert (makeSender P address msgSent.id draft).toRow hsenderFree
      avatars := db.avatars.insertOrIgnore ⟨P.eightByteHash draft.row.senderAvatar, draft.row.senderAvatar⟩
      attachments := A
      attachmentsContent := C
      delivery := (DeliveryDao.insertUnsent db msgSent.id delivery).delivery }, ?_, ?_⟩
  · rw [hconvId.1, ← hrow]
    rfl
  · refine ⟨?_, rfl⟩
    exact
      { message := congrArg (fun r => db.messages.rows ++ [r]) hrow
        sender := congrArg (fun r => db.senders.rows ++ [r]) hsenderRow
        avatar := rfl
        attachments := hA
        contents := hC
        delivery := rfl
        conversations := rfl }

/-! ### Encoding the stored message -/

section

variable {address : KulloAddress} {dateSent : String} {draft : DraftDao} {msgSent : MessageSent}
  {delivery : List KulloAddress} {db db' : Db}

theorem Stored.load (h : Stored P address dateSent draft.row msgSent delivery db db') (hfresh : FreshMessage db msgSent.id) :
    MessageDao.load db' msgSent.id false = some (.ofRow (messageRow address dateSent msgSent draft.row)) := by
  have hkey : (messageRow address dateSent msgSent draft.row).key = (msgSent.id, false) := rfl
  unfold MessageDao.load
  rw [Table.find?_of_rows_append h.message, hfresh.message, if_pos hkey]
  rfl

private theorem Stored.loadSender (h : Stored P address dateSent draft.row msgSent delivery db db')
    (hfresh : FreshMessage db msgSent.id) :
    SenderDao.load db' msgSent.id = .ok (some ⟨msgSent.id, draft.row.senderName, address, draft.row.senderOrganization,
      draft.row.senderAvatarMimeType, some (P.eightByteHash draft.row.senderAvatar), false, true⟩) := by
  have hkey : (senderRow P address msgSent.id draft.row).messageId = msgSent.id := rfl
  have haddress : KulloAddress.ofString (senderRow P address msgSent.id draft.row).address = .ok address :=
    address.ofString_toString
  unfold SenderDao.load
  rw [Table.find?_of_rows_append h.sender, hfresh.sender, if_pos hkey]
  simp only [Option.none_or, haddress, ok_bind]
  rfl

/-- The avatar that is stored under the hash of a draft's avatar is the draft's. -/
def NoAvatarCollision (P : Platform) (db : Db) (avatar : Bytes) : Prop :=
  ∀ r, db.avatars.find? (P.eightByteHash avatar) = some r → r.avatar = avatar

private theorem Stored.loadAvatar (h : Stored P address dateSent draft.row msgSent delivery db db')
    (hcollision : NoAvatarCollision P db draft.row.senderAvatar) :
    AvatarDao.load db' (P.eightByteHash draft.row.senderAvatar) = .ok draft.row.senderAvatar := by
  unfold AvatarDao.load
  rw [h.avatar, Table.find?_insertOrIgnore, if_pos rfl]
  cases hr : db.avatars.find? (P.eightByteHash draft.row.senderAvatar) with
  | none => rfl
  | some r =>
    dsimp only [Option.getD_some]
    rw [hcollision r hr]

theorem Stored.allForMessage (h : Stored P address dateSent draft.row msgSent delivery db db')
    (hfresh : FreshMessage db msgSent.id) :
    AttachmentDao.allForMessage db' false msgSent.id =
      (AttachmentDao.allForMessage db true draft.row.conversationId).map (converted msgSent.id) := by
  have hselect : db'.attachments.select (fun r => r.draft == false && r.messageId == msgSent.id) =
      (db.attachments.select (fun r => r.draft == true && r.messageId == draft.row.conversationId)).map
        (AttachmentDao.convertedRow msgSent.id) := by
    unfold Table.select
    rw [h.attachments, List.filter_map]
    have hfilter : db.attachments.rows.filter ((fun r => r.draft == false && r.messageId == msgSent.id) ∘
        Table.moved (AttachmentDao.draftKeys db draft.row.conversationId) (AttachmentDao.convertedRow msgSent.id)
          AttachmentRow.key) =
        db.attachments.rows.filter (fun r => r.draft == true && r.messageId == draft.row.conversationId) := by
      apply List.filter_congr
      intro r hr
      simp only [Function.comp_apply, Table.moved, AttachmentDao.key_mem_draftKeys hr]
      by_cases hd : r.draft = true ∧ r.messageId = draft.row.conversationId
      · simp [hd, AttachmentDao.convertedRow]
      · rw [if_neg hd]
        have hfree := hfresh.attachments r hr
        cases hdraft : r.draft with
        | true =>
          rw [hdraft] at hd
          simpa using hd
        | false => simpa using hfree hdraft
    rw [hfilter]
    apply List.map_congr_left
    intro r hr
    rw [List.mem_filter] at hr
    have hd : r.draft = true ∧ r.messageId = draft.row.conversationId := by simpa using hr.2
    unfold Table.moved
    rw [if_pos ((AttachmentDao.key_mem_draftKeys hr.1).mpr hd)]
  unfold AttachmentDao.allForMessage
  rw [hselect, List.map_map, ← List.map_insertionSort (fun r r' : AttachmentRow => r.index ≤ r'.index)
    (fun r r' : AttachmentRow => r.index ≤ r'.index), List.map_map]
  · rfl
  · intro r _ r' _
    rfl

theorem Stored.content (h : Stored P address dateSent draft.row msgSent delivery db db')
    (hfresh : FreshMessage db msgSent.id) {d : AttachmentDao}
    (hd : d ∈ AttachmentDao.allForMessage db true draft.row.conversationId) :
    (converted msgSent.id d).content db' = d.content db := by
  have hmem : d.row.key ∈ AttachmentDao.draftKeys db draft.row.conversationId := List.mem_map.mpr ⟨d, hd, rfl⟩
  have hmoved : ∀ c, c ∈ db'.attachmentsContent ↔ ∃ c₀ ∈ db.attachmentsContent,
      Table.moved (AttachmentDao.draftKeys db draft.row.conversationId) (AttachmentDao.convertedContent msgSent.id)
        AttachmentContentRow.key c₀ = c := by
    intro c
    change c ∈ db'.attachmentsContent.rows ↔ _
    rw [h.contents, List.mem_map]
    rfl
  have hkey : (converted msgSent.id d).row.key = (false, msgSent.id, d.row.index) := rfl
  unfold AttachmentDao.content
  rw [hkey]
  cases hc : db.attachmentsContent.find? d.row.key with
  | some c =>
    obtain ⟨hin, hck⟩ := Table.find?_eq_some.mp hc
    have hfind : db'.attachmentsContent.find? (false, msgSent.id, d.row.index) =
        some (AttachmentDao.convertedContent msgSent.id c) := by
      refine Table.find?_eq_some.mpr ⟨(hmoved _).mpr ⟨c, hin, ?_⟩, ?_⟩
      · unfold Table.moved
        rw [hck, if_pos hmem]
      · simp only [AttachmentContentRow.key, AttachmentRow.key, Prod.mk.injEq] at hck
        simp [AttachmentContentRow.key, AttachmentDao.convertedContent, hck.2.2]
    rw [hfind]
    rfl
  | none =>
    have hfind : db'.attachmentsContent.find? (false, msgSent.id, d.row.index) = none := by
      refine Table.find?_eq_none.mpr ?_
      intro c hc' hck
      obtain ⟨c₀, hc₀, rfl⟩ := (hmoved c).mp hc'
      simp only [AttachmentContentRow.key, Prod.mk.injEq] at hck
      by_cases hk : c₀.key ∈ AttachmentDao.draftKeys db draft.row.conversationId
      · have hindex : c₀.index = d.row.index := by simpa [Table.moved, hk, AttachmentDao.convertedContent] using hck.2.2
        have h1 := AttachmentDao.draftKeys_fst hk
        have h2 := AttachmentDao.draftKeys_fst hmem
        have hsame : c₀.key = d.row.key := by
          refine Prod.ext (h1.1.trans h2.1.symm) (Prod.ext (h1.2.trans h2.2.symm) hindex)
        exact Table.find?_eq_none.mp hc c₀ hc₀ hsame
      · simp only [Table.moved, if_neg hk] at hck
        exact hfresh.contents c₀ hc₀ hck.1 hck.2.1
    rw [hfind]

private theorem encodeAttachments_congr {ds : List AttachmentDao} {msgId : IdType}
    (h : ∀ d ∈ ds, (converted msgId d).content db' = d.content db) :
    MessageEncoder.encodeAttachments db' (ds.map (converted msgId)) = MessageEncoder.encodeAttachments db ds := by
  induction ds with
  | nil => rfl
  | cons d ds ih =>
    rw [List.forall_mem_cons] at h
    have hindex : MessageEncoder.attachmentIndexElement (converted msgId d) = MessageEncoder.attachmentIndexElement d := rfl
    have hsize : (converted msgId d).row.size = d.row.size := rfl
    rw [List.map_cons]
    unfold MessageEncoder.encodeAttachments
    rw [h.1, ih h.2, hindex, hsize]

/-- The stored message is encoded as the draft was. -/
theorem Stored.encodeMessage (h : Stored P address dateSent draft.row msgSent delivery db db')
    (hfresh : FreshMessage db msgSent.id) (hcollision : NoAvatarCollision P db draft.row.senderAvatar) :
    MessageEncoder.encodeMessage P db' (.ofRow (messageRow address dateSent msgSent draft.row)) =
      MessageEncoder.encodeDraft P db address draft dateSent := by
  have hid : (MessageDao.ofRow (messageRow address dateSent msgSent draft.row)).row.id = msgSent.id := rfl
  have hsender : MessageEncoder.encodeSender P ⟨msgSent.id, draft.row.senderName, address, draft.row.senderOrganization,
      draft.row.senderAvatarMimeType, some (P.eightByteHash draft.row.senderAvatar), false, true⟩ draft.row.senderAvatar =
      MessageEncoder.encodeSender P (MessageEncoder.draftSender address draft) draft.row.senderAvatar := by
    have hrow := MessageEncoder.draftSender_toRow address draft
    have hname : (MessageEncoder.draftSender address draft).name = draft.row.senderName := congrArg SenderRow.name hrow
    have horganization : (MessageEncoder.draftSender address draft).organization = draft.row.senderOrganization :=
      congrArg SenderRow.organization hrow
    have hmime : (MessageEncoder.draftSender address draft).avatarMimeType = draft.row.senderAvatarMimeType :=
      congrArg SenderRow.avatarMimeType hrow
    unfold MessageEncoder.encodeSender
    rw [hname, horganization, hmime, MessageEncoder.draftSender_address]
  have hload : ∀ id, ConversationDao.load db' id = ConversationDao.load db id := by
    intro id
    unfold ConversationDao.load
    rw [h.conversations]
  unfold MessageEncoder.encodeMessage
  rw [hid, h.loadSender hfresh, ok_bind]
  dsimp only
  rw [h.loadAvatar hcollision, ok_bind, h.allForMessage hfresh]
  unfold MessageEncoder.encodeDraft MessageEncoder.encodeParts
  dsimp only
  rw [hload, hsender, encodeAttachments_congr (fun d hd => h.content hfresh hd)]
  rfl

/-- Clearing the draft leaves the stored message alone. -/
theorem Stored.cleared (h : Stored P address dateSent draft.row msgSent delivery db db') :
    Stored P address dateSent draft.row msgSent delivery db (clearedDb db' draft) :=
  ⟨h.message, h.sender, h.avatar, h.attachments, h.contents, h.delivery, h.conversations⟩

end

/-! ### What an iteration that uploads leaves -/

/-- The request of an upload carries the encoded and compressed draft. -/
theorem Sends.encoded {db : Db} {draft : DraftDao} {conv : ConversationDao} {msgSent : MessageSent}
    {delivery : List KulloAddress} {req : Event} (h : Sends account it db draft conv msgSent delivery req) :
    ∃ encoded compressed msg metaData,
      MessageEncoder.encodeDraft P db account.address draft it.dateSent = .ok encoded ∧
      MessageCompressor.compress P encoded = .ok compressed ∧ it.makeSendableMessage compressed = .ok msg ∧
      req = request it draft.row.conversationId msg metaData := by
  cases h with
  | intro hload hsendable hbig hmeta hanswer =>
    obtain ⟨compressed, hencode, hmsg⟩ := bind_eq_ok.mp hsendable
    obtain ⟨_, _, hencode⟩ := bind_eq_ok.mp hencode
    obtain ⟨encoded, hencoded, hencode⟩ := bind_eq_ok.mp hencode
    obtain ⟨_, _, hencode⟩ := bind_eq_ok.mp hencode
    obtain ⟨compressed', hcompressed, hencode⟩ := bind_eq_ok.mp hencode
    obtain ⟨_, _, hencode⟩ := bind_eq_ok.mp hencode
    cases hencode
    exact ⟨encoded, compressed, _, _, (Iteration.call_eq_ok.mp hencoded).2, (Iteration.call_eq_ok.mp hcompressed).2, hmsg,
      rfl⟩

theorem Sends.load {db : Db} {draft : DraftDao} {conv : ConversationDao} {msgSent : MessageSent}
    {delivery : List KulloAddress} {req : Event} (h : Sends account it db draft conv msgSent delivery req) :
    ConversationDao.load db draft.row.conversationId = some conv := by
  cases h with
  | intro hload _ _ _ _ => exact (load_id hload).1

theorem Sends.answer {db : Db} {draft : DraftDao} {conv : ConversationDao} {msgSent : MessageSent}
    {delivery : List KulloAddress} {req : Event} (h : Sends account it db draft conv msgSent delivery req) :
    it.answer = .ok msgSent := by
  cases h with
  | intro _ _ _ _ hanswer => exact hanswer

/-- An iteration that makes a request and goes on has stored the message: the encoding sent to the own account is what
encoding the stored message gives. -/
theorem iterate_encodings (s s' : State) (draft : DraftDao) (msgSent : MessageSent) (msg : SendableMessage)
    (metaData : Bytes) (events : List Event) (hdraft : DraftDao.firstSendable s.db = some draft)
    (hanswer : it.answer = .ok msgSent) (hrun : iterate P account it s = .ok true s')
    (htrace : s'.trace = s.trace ++ events)
    (hsent : .sendMessageToSelf draft.row.conversationId msg metaData it.accepted ∈ events)
    (hfresh : FreshMessage s.db msgSent.id) (hcollision : NoAvatarCollision P s.db draft.row.senderAvatar) :
    ∃ encoded compressed dao, MessageEncoder.encodeDraft P s.db account.address draft it.dateSent = .ok encoded ∧
      MessageCompressor.compress P encoded = .ok compressed ∧ it.makeSendableMessage compressed = .ok msg ∧
      MessageDao.load s'.db msgSent.id false = some dao ∧ MessageEncoder.encodeMessage P s'.db dao = .ok encoded := by
  obtain ⟨events', houtcome, htrace'⟩ := iterate_outcome account it s
  rw [hrun] at houtcome htrace'
  have hevents : events = events' := List.append_cancel_left (htrace.symm.trans htrace')
  subst hevents
  obtain ⟨draft', hdraft', hprocessed⟩ := houtcome.of_more
  rw [hdraft] at hdraft'
  cases hdraft'
  change Processed account it s.db draft none s'.db events at hprocessed
  generalize s'.db = db' at hprocessed
  cases hprocessed with
  -- a draft that is too big is not sent
  | tooBig _ => simp at hsent
  | failed hfails _ _ =>
    -- a run that failed in its request was answered with an error
    rcases hfails.requests_eq with hnil | ⟨herror, _⟩
    · subst hnil
      simp [failedEvents] at hsent
    · rw [hanswer] at herror
      cases herror
  | cleared hsends _ hstore _ =>
    have hsame := hsends.answer
    rw [hanswer] at hsame
    cases hsame
    obtain ⟨encoded, compressed, msg', metaData', hencode, hcompress, hmsg, rfl⟩ := hsends.encoded
    obtain ⟨db₁, hok, hstored, _⟩ := store_eq_ok (P := P) account.address it.dateSent hfresh hsends.load
    rw [(Iteration.call_eq_ok.mp hstore).2] at hok
    cases hok
    -- the request is the only sending among the events of a cleared draft
    have hrequest := List.mem_filter.mpr ⟨hsent, (rfl : isRequest (.sendMessageToSelf _ _ _ _) = true)⟩
    rw [List.cons_append, List.cons_append, List.filter_cons_of_pos rfl, List.filter_append, List.filter_append,
      filter_addedEvents, filter_clearedEvents, List.nil_append, List.nil_append,
      List.filter_cons_of_neg (by simp [isRequest]), List.filter_nil, List.mem_singleton] at hrequest
    cases hrequest
    refine ⟨encoded, compressed, _, hencode, hcompress, hmsg, hstored.cleared.load hfresh, ?_⟩
    rw [hstored.cleared.encodeMessage hfresh hcollision, hencode]

/-! ### An upload -/

/-- A platform on which every JSON value is written as an empty object. -/
def plainPlatform : Platform := { Platform.transparent with writeJson := fun _ => [123, 125, 10] }

def plainAccount : Account := ⟨MessageDecoder.alice, []⟩

/-- The draft of a conversation, with an attachment. -/
def plainDb : Db :=
  { MessageDecoder.letterDb with drafts := ⟨[MessageDecoder.letter.row], by simp⟩ }

/-- An iteration in which the server accepts the message and nothing is raised. -/
def plainIteration : Iteration plainPlatform where
  dateSent := "2020-01-01T00:00:00Z"
  encKeyId := 1
  encKey := ([] : Bytes)
  sigKeyId := 2
  sigKey := ([] : Bytes)
  random := ⟨[1], []⟩
  iv := []
  accepted := true
  answer := .ok ⟨7, 1, "2020-01-01T00:00:01Z"⟩

def plainMessage : SendableMessage :=
  MessageEncryptor.makeSendableMessage plainPlatform ⟨[1], []⟩ ⟨[123, 125, 10], [104, 105]⟩ 1 ([] : Bytes) 2 ([] : Bytes)

theorem plain_fresh : FreshMessage plainDb 7 where
  inRange := by decide
  message := rfl
  sender := rfl
  attachments := by
    intro r hr hdraft
    have hrow : r = MessageDecoder.letterAttachment := List.mem_singleton.mp hr
    rw [hrow] at hdraft
    cases hdraft
  contents := by
    intro c hc hdraft
    have hrow : c = ⟨true, 1, 0, some [104, 105]⟩ := List.mem_singleton.mp hc
    rw [hrow] at hdraft
    cases hdraft
  delivery := by
    intro r hr
    cases hr

theorem iterate_encodings_plain :
    ∃ encoded compressed dao,
      MessageEncoder.encodeDraft plainPlatform plainDb MessageDecoder.alice MessageDecoder.letter
        "2020-01-01T00:00:00Z" = .ok encoded ∧
      MessageCompressor.compress plainPlatform encoded = .ok compressed ∧
      plainIteration.makeSendableMessage compressed = .ok plainMessage ∧
      MessageDao.load (final (iterate plainPlatform plainAccount plainIteration { db := plainDb })).db 7 false =
        some dao ∧
      MessageEncoder.encodeMessage plainPlatform
        (final (iterate plainPlatform plainAccount plainIteration { db := plainDb })).db dao = .ok encoded :=
  @iterate_encodings plainPlatform plainAccount plainIteration { db := plainDb } _ MessageDecoder.letter
    ⟨7, 1, "2020-01-01T00:00:01Z"⟩ plainMessage _ _ rfl rfl rfl rfl (.head _) plain_fresh (by
      intro r hr
      cases hr)

end MessagesUploader

end KulloClient
