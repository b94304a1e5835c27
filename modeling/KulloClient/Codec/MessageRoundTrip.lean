import KulloClient.Codec.MessageDecoder
import KulloClient.Crypto.SymmetricCryptor

/-!
# Decoding what was encoded

The decoder reads what the encoder wrote of a draft, whichever participant reads it.  JSON, Base64 and gzip are assumed
to undo themselves; `SendableDraft` is what the code has made sure of before a draft is encoded.
-/

namespace KulloClient

open Imperative

/-! ### What is assumed of the codecs -/

def JsonRoundTrips (P : Platform) (j : Json) : Prop := P.parseJson (P.writeJson j) = .ok (.ok j)

structure BinaryRoundTrips (P : Platform) : Prop where
  base64 : ∀ data, P.base64Decode (P.base64Encode data) = .ok data
  base64_empty : P.base64Decode "" = .ok []
  gzip : ∀ data, ∃ compressed, P.gzip data = .ok compressed ∧ P.gunzip compressed = .ok data

theorem JsonRoundTrips.readObject {P : Platform} {members : List (String × Json)}
    (h : JsonRoundTrips P (.object members)) : P.readObject (P.writeJson (.object members)) = .ok (.object members) := by
  unfold Platform.readObject
  rw [h]
  rfl

private theorem BinaryRoundTrips.base64Encode_ne_empty {P : Platform} (h : BinaryRoundTrips P) {data : Bytes}
    (hne : data ≠ []) : P.base64Encode data ≠ "" := by
  intro hempty
  have hdata := h.base64 data
  rw [hempty, h.base64_empty] at hdata
  exact hne (Except.ok.inj hdata).symm

/-! ### What is encoded -/

namespace MessageEncoder

variable (P : Platform)

/-- The sender a draft is encoded with. -/
def draftSender (address : KulloAddress) (draft : DraftDao) : SenderDao :=
  (((SenderDao.new address).setName draft.row.senderName).setOrganization draft.row.senderOrganization).setAvatarMimeType
    draft.row.senderAvatarMimeType

theorem draftSender_toRow (address : KulloAddress) (draft : DraftDao) :
    (draftSender address draft).toRow =
      ⟨0, draft.row.senderName, address.toString, draft.row.senderOrganization, draft.row.senderAvatarMimeType, none⟩ := by
  unfold draftSender
  rw [SenderDao.setAvatarMimeType_toRow, SenderDao.setOrganization_toRow, SenderDao.setName_toRow]
  rfl

theorem draftSender_address (address : KulloAddress) (draft : DraftDao) :
    (draftSender address draft).address = address := by
  simp [draftSender, SenderDao.new]

/-- The JSON value of a message's content. -/
def contentJson (recipients : List String) (sender : SenderDao) (avatar : Bytes) (dateSent text footer : String)
    (attachments : List AttachmentDao) : List (String × Json) :=
  [("attachmentsIndex", .array (attachments.map attachmentIndexElement)), ("dateSent", .string dateSent),
    ("footer", .string footer), ("recipients", .array (recipients.map .string)),
    ("sender", encodeSender P sender avatar), ("text", .string text)]

/-- The JSON value a draft is encoded as. -/
def draftJson (db : Db) (address : KulloAddress) (participants : List KulloAddress) (draft : DraftDao)
    (dateSent : String) : Json :=
  .object (contentJson P (ConversationDao.sortedNames participants) (draftSender address draft) draft.row.senderAvatar
    dateSent draft.row.text draft.row.footer (AttachmentDao.allForMessage db true draft.row.conversationId))

def metaJson (read done : Bool) : Json :=
  .object [("done", .int (if done then 1 else 0)), ("read", .int (if read then 1 else 0))]

/-- What `DraftAttachmentsAddWorker` stores of a file: the names are given, the size and the hash are those of the
content, and the size is checked. -/
structure SendableAttachment (db : Db) (dao : AttachmentDao) : Prop where
  filename : dao.row.filename ≠ ""
  mimeType : dao.row.mimeType ≠ ""
  content : ∃ c, db.attachmentsContent.find? dao.row.key = some c ∧ dao.row.size = (c.content.getD []).length
  size : dao.row.size ≤ messageAttachmentsMaxBytes
  hash : CheckedConverter.isValidHexString dao.row.hash = true
  hashLength : dao.row.hash.length = MessageDecoder.expectedHashLength

/-- What the send path admits: a named sender, a conversation with participants other than the author, and what
`toString` makes of the time of sending. -/
structure SendableDraft (db : Db) (address : KulloAddress) (participants : List KulloAddress) (draft : DraftDao)
    (dateSent : String) : Prop where
  senderName : draft.row.senderName ≠ ""
  conversation : ∃ r, db.conversations.find? draft.row.conversationId = some r ∧
    r.participants = ConversationDao.makeParticipantsString participants
  participants_ne : participants ≠ []
  author_notMem : address ∉ participants
  attachments : ∀ dao ∈ AttachmentDao.allForMessage db true draft.row.conversationId, SendableAttachment db dao
  dateSent : ∃ now : DateTime, now.IsTime ∧ P.printDateTime now = .ok dateSent

private theorem SendableAttachment.content_eq_ok {db : Db} {dao : AttachmentDao} (h : SendableAttachment db dao) :
    ∃ content, dao.content db = .ok content ∧ dao.row.size = content.length := by
  obtain ⟨c, hc, hsize⟩ := h.content
  refine ⟨c.content.getD [], ?_, hsize⟩
  unfold AttachmentDao.content
  rw [hc]

private theorem encodeAttachments_eq_ok {db : Db} {daos : List AttachmentDao} (h : ∀ dao ∈ daos, SendableAttachment db dao) :
    ∃ data, encodeAttachments db daos = .ok (data, daos.map attachmentIndexElement) := by
  induction daos with
  | nil => exact ⟨[], rfl⟩
  | cons dao daos ih =>
    rw [List.forall_mem_cons] at h
    obtain ⟨content, hcontent, hsize⟩ := h.1.content_eq_ok
    obtain ⟨data, hdata⟩ := ih h.2
    refine ⟨content ++ data, ?_⟩
    unfold encodeAttachments
    rw [hcontent, ok_bind, if_neg (by simp [hsize]), hdata]
    rfl

/-- A draft the send path admits is encoded. -/
theorem encodeDraft_eq_ok {db : Db} {address : KulloAddress} {participants : List KulloAddress} {draft : DraftDao}
    {dateSent : String} (h : SendableDraft P db address participants draft dateSent) :
    ∃ data, encodeDraft P db address draft dateSent =
      .ok ⟨P.writeJson (draftJson P db address participants draft dateSent), data⟩ := by
  obtain ⟨r, hr, hparticipants⟩ := h.conversation
  obtain ⟨data, hdata⟩ := encodeAttachments_eq_ok h.attachments
  refine ⟨data, ?_⟩
  have hload : ConversationDao.load db draft.row.conversationId = some (ConversationDao.ofRow r) := by
    unfold ConversationDao.load
    rw [hr]
    rfl
  have hnames : (ConversationDao.ofRow r).participantsList = ConversationDao.sortedNames participants :=
    ConversationDao.participantsList_make h.participants_ne hparticipants
  unfold encodeDraft encodeParts
  dsimp only
  rw [hload]
  dsimp only
  rw [hdata, ok_bind, hnames]
  rfl

end MessageEncoder

/-! ### What is decoded -/

namespace MessageDecoder

open MessageEncoder

variable {P : Platform}

private theorem converting_ok {α : Type} (message : String) (a : α) :
    converting message (.ok a : Except Exn α) = .ok a := rfl

private theorem toStringOr_string (s : String) : CheckedConverter.toStringOr (.string s) "" = .ok s := rfl

private theorem toKulloAddress_toString (a : KulloAddress) :
    CheckedConverter.toKulloAddress (.string a.toString) = .ok a := by
  unfold CheckedConverter.toKulloAddress
  rw [CheckedConverter.toString_of_ne a.toString_ne_empty, ok_bind, a.ofString_toString]

private theorem toUint32_of_lt {n : Nat} (h : n < 2 ^ 32) :
    CheckedConverter.toUint32 (.int ((n % 2 ^ 32 : Nat) : Int)) = .ok n := by
  rw [Nat.mod_eq_of_lt h]
  have hbound : (0 : Int) ≤ (n : Int) ∧ (n : Int) ≤ Json.maxUInt := by
    have : Json.maxUInt = 2 ^ 32 - 1 := rfl
    omega
  simp [CheckedConverter.toUint32, Json.asUInt?, hbound]

private theorem toHexString_of_valid {s : String} (hne : s ≠ "") (h : CheckedConverter.isValidHexString s = true) :
    CheckedConverter.toHexString (.string s) .no = .ok s := by
  unfold CheckedConverter.toHexString
  rw [CheckedConverter.toString_of_ne hne, ok_bind, if_pos h]

/-- The row a reader makes of an attachment of the sender's. -/
def receivedRow (messageId index : IdType) (r : AttachmentRow) : AttachmentRow :=
  { r with draft := false, messageId := messageId, index := index }

/-- The attachment the decoder starts from. -/
def existing (db : Db) (messageId index : IdType) : AttachmentDao :=
  (AttachmentDao.load db false messageId index).getD (AttachmentDao.new false messageId index)

private theorem existing_key (db : Db) (messageId index : IdType) :
    (existing db messageId index).row.draft = false ∧ (existing db messageId index).row.messageId = messageId ∧
      (existing db messageId index).row.index = index := by
  unfold existing
  cases hload : AttachmentDao.load db false messageId index with
  | none => exact ⟨rfl, rfl, rfl⟩
  | some att =>
    obtain ⟨r, hr, rfl⟩ := Option.map_eq_some_iff.mp hload
    have hkey := Relational.Table.key_of_find? hr
    simp only [AttachmentRow.key, Prod.mk.injEq] at hkey
    exact hkey

/-- Whatever is stored under its key, the attachment is the one that was encoded. -/
theorem parseAttachment_encoded {authorDb : Db} {dao : AttachmentDao} (h : SendableAttachment authorDb dao) (db : Db)
    (messageId index : IdType) :
    ∃ att, parseAttachment db messageId index (attachmentIndexElement dao) = .ok att ∧
      att.row = receivedRow messageId index dao.row := by
  have hsize : dao.row.size < 2 ^ 32 := by
    have hle := h.size
    unfold messageAttachmentsMaxBytes at hle
    omega
  have hhash : dao.row.hash ≠ "" := by
    intro hempty
    have hlen := h.hashLength
    rw [hempty] at hlen
    cases hlen
  obtain ⟨hdraft, hmessageId, hindex⟩ := existing_key db messageId index
  refine ⟨((((existing db messageId index).setFilename dao.row.filename).setMimeType dao.row.mimeType).setSize
    dao.row.size |>.setNote dao.row.note).setHash dao.row.hash, ?_, ?_⟩
  · have hf : (attachmentIndexElement dao).get "filename" = .ok (.string dao.row.filename) := rfl
    have hm : (attachmentIndexElement dao).get "mimeType" = .ok (.string dao.row.mimeType) := rfl
    have hs : (attachmentIndexElement dao).get "size" = .ok (.int ((dao.row.size % 2 ^ 32 : Nat) : Int)) := rfl
    have hn : (attachmentIndexElement dao).get "note" = .ok (.string dao.row.note) := rfl
    have hh : (attachmentIndexElement dao).get "hash" = .ok (.string dao.row.hash) := rfl
    unfold parseAttachment
    dsimp only
    rw [hf, ok_bind, CheckedConverter.toString_of_ne h.filename, converting_ok, ok_bind, hm, ok_bind, CheckedConverter.toString_of_ne h.mimeType,
      converting_ok, ok_bind, hs, ok_bind, toUint32_of_lt hsize, converting_ok, ok_bind, hn, ok_bind,
      toStringOr_string, converting_ok, ok_bind, hh, ok_bind, toHexString_of_valid hhash h.hash, converting_ok, ok_bind,
      if_neg (by simp [h.hashLength])]
    rfl
  · simp [receivedRow, hdraft, hmessageId, hindex]

/-- The rows of a whole index. -/
def receivedRows (messageId : IdType) : List AttachmentDao → IdType → List AttachmentRow
  | [], _ => []
  | dao :: daos, index => receivedRow messageId index dao.row :: receivedRows messageId daos (index + 1)

private theorem parseAttachments_encoded {authorDb : Db} {daos : List AttachmentDao}
    (h : ∀ dao ∈ daos, SendableAttachment authorDb dao) (db : Db) (messageId index : IdType) :
    ∃ atts, parseAttachments db messageId (daos.map attachmentIndexElement) index = .ok atts ∧
      atts.map AttachmentDao.row = receivedRows messageId daos index := by
  induction daos generalizing index with
  | nil => exact ⟨[], rfl, rfl⟩
  | cons dao daos ih =>
    rw [List.forall_mem_cons] at h
    obtain ⟨att, hatt, hrow⟩ := parseAttachment_encoded h.1 db messageId index
    obtain ⟨atts, hatts, hrows⟩ := ih h.2 (index + 1)
    refine ⟨att :: atts, ?_, ?_⟩
    · rw [List.map_cons]
      unfold parseAttachments
      rw [hatt, ok_bind, hatts, ok_bind]
    · rw [List.map_cons, hrow, hrows]
      rfl

/-- A stored sender of the message has the address `address`. -/
def StoredSender (db : Db) (messageId : IdType) (address : KulloAddress) : Prop :=
  ∀ r, db.senders.find? messageId = some r → r.address = address.toString

/-- The sender the decoder starts from. -/
def startSender (stored : Option SenderDao) (address : KulloAddress) (messageId : IdType) : SenderDao :=
  match stored with
  | some part => part
  | none => (SenderDao.new address).setMessageId messageId

/-- The rest of `parseSender`, which fills in the sender it starts from. -/
def fillSender (P : Platform) (sender : Json) (part : SenderDao) : Except Exn (SenderDao × Bytes) := do
  let name ← converting "sender name invalid" (do CheckedConverter.toString (← sender.get "name") .no)
  let organization ←
    converting "sender organization invalid" (do CheckedConverter.toStringOr (← sender.get "organization") "")
  let part := (part.setName name).setOrganization organization
  let avatarJson ← sender.get "avatar"
  if !(avatarJson.isNull || avatarJson.isObject) then
    .error (.invalidContentFormat "sender.avatar must be null or an object")
  else if avatarJson.size = 0 then .ok (part, [])
  else if avatarJson.size = 2 then do
    let mimeType ← converting "avatar mimeType invalid" (do CheckedConverter.toString (← avatarJson.get "mimeType") .no)
    let avatar ← converting "avatar data invalid" (do P.toVector (← avatarJson.get "data") .no)
    .ok ((part.setAvatarMimeType mimeType).setAvatarHash (some (P.eightByteHash avatar)), avatar)
  else .error (.invalidContentFormat "sender.avatar must be empty or consist of mimeType and data")

private theorem parseSender_eq {db : Db} {messageId : IdType} {sender : Json} {address : KulloAddress}
    {stored : Option SenderDao} (haddress : sender.get "address" = .ok (.string address.toString))
    (hload : SenderDao.load db messageId = .ok stored) :
    parseSender P db sender messageId = fillSender P sender (startSender stored address messageId) := by
  unfold parseSender
  rw [haddress, ok_bind, toKulloAddress_toString, converting_ok, ok_bind, hload, ok_bind]
  cases stored <;> rfl

private theorem fillSender_encoded (hbinary : BinaryRoundTrips P) {sender : SenderDao} (avatar : Bytes)
    (hname : sender.name ≠ "") (start : SenderDao) :
    ∃ part, fillSender P (encodeSender P sender avatar) start =
        .ok (part, if sender.avatarMimeType.isEmpty || avatar.isEmpty then [] else avatar) ∧
      part.address = start.address ∧ part.toRow.name = sender.name ∧ part.toRow.organization = sender.organization ∧
      (sender.avatarMimeType ≠ "" → avatar ≠ [] → part.toRow.avatarMimeType = sender.avatarMimeType) := by
  have hn : (encodeSender P sender avatar).get "name" = .ok (.string sender.name) := rfl
  have ho : (encodeSender P sender avatar).get "organization" = .ok (.string sender.organization) := rfl
  have hv : (encodeSender P sender avatar).get "avatar" = .ok (.object
      (if sender.avatarMimeType.isEmpty || avatar.isEmpty then []
        else [("data", .string (P.base64Encode avatar)), ("mimeType", .string sender.avatarMimeType)])) := rfl
  unfold fillSender
  rw [hn, ok_bind, CheckedConverter.toString_of_ne hname, converting_ok, ok_bind, ho, ok_bind, toStringOr_string, converting_ok, ok_bind]
  dsimp only
  rw [hv, ok_bind]
  by_cases hempty : (sender.avatarMimeType.isEmpty || avatar.isEmpty) = true
  · rw [if_pos hempty, if_pos hempty]
    refine ⟨(start.setName sender.name).setOrganization sender.organization, rfl, by simp, by simp, by simp, ?_⟩
    intro hmime havatar
    simp [hmime, havatar] at hempty
  · rw [if_neg hempty, if_neg hempty]
    simp only [Bool.or_eq_true, not_or, String.isEmpty_iff, List.isEmpty_iff] at hempty
    have hd : (Json.object [("data", .string (P.base64Encode avatar)), ("mimeType", .string sender.avatarMimeType)]).get
      "data" = .ok (.string (P.base64Encode avatar)) := rfl
    have hm : (Json.object [("data", .string (P.base64Encode avatar)), ("mimeType", .string sender.avatarMimeType)]).get
      "mimeType" = .ok (.string sender.avatarMimeType) := rfl
    have hvector : P.toVector (.string (P.base64Encode avatar)) .no = .ok avatar := by
      unfold Platform.toVector
      rw [CheckedConverter.toString_of_ne (hbinary.base64Encode_ne_empty hempty.2), ok_bind, hbinary.base64]
    refine ⟨(((start.setName sender.name).setOrganization sender.organization).setAvatarMimeType
      sender.avatarMimeType).setAvatarHash (some (P.eightByteHash avatar)), ?_, by simp, by simp, by simp, by simp⟩
    rw [if_neg (by simp [Json.isNull, Json.isObject]), if_neg (by simp [Json.size]), if_pos (by simp [Json.size]), hm,
      ok_bind, CheckedConverter.toString_of_ne hempty.1, converting_ok, ok_bind, hd, ok_bind, hvector, converting_ok, ok_bind]

/-- The sender part of a message is the one that was encoded; its avatar is left out if there is nothing to show. -/
theorem parseSender_encoded (hbinary : BinaryRoundTrips P) {db : Db} {messageId : IdType} (sender : SenderDao)
    (avatar : Bytes) (hname : sender.name ≠ "") (hstored : StoredSender db messageId sender.address) :
    ∃ part, parseSender P db (encodeSender P sender avatar) messageId =
        .ok (part, if sender.avatarMimeType.isEmpty || avatar.isEmpty then [] else avatar) ∧
      part.address = sender.address ∧ part.toRow.name = sender.name ∧ part.toRow.organization = sender.organization ∧
      (sender.avatarMimeType ≠ "" → avatar ≠ [] → part.toRow.avatarMimeType = sender.avatarMimeType) := by
  obtain ⟨stored, hload, hstart⟩ : ∃ stored, SenderDao.load db messageId = .ok stored ∧
      (startSender stored sender.address messageId).address = sender.address := by
    unfold SenderDao.load
    cases hr : db.senders.find? messageId with
    | none => exact ⟨none, rfl, by simp [startSender, SenderDao.new]⟩
    | some r =>
      dsimp only
      rw [hstored r hr, sender.address.ofString_toString]
      exact ⟨_, rfl, rfl⟩
  obtain ⟨part, hfill, haddress, hrow⟩ :=
    fillSender_encoded hbinary avatar hname (startSender stored sender.address messageId)
  refine ⟨part, ?_, haddress.trans hstart, hrow⟩
  rw [parseSender_eq rfl hload, hfill]

/-- The participants a list of recipients adds up to. -/
theorem mem_insertAddress {a b : KulloAddress} {l : List KulloAddress} : b ∈ insertAddress a l ↔ b = a ∨ b ∈ l := by
  induction l with
  | nil => simp [insertAddress]
  | cons c l ih =>
    unfold insertAddress
    split
    · next h => simp [h]
    · split
      · simp
      · simp only [List.mem_cons, ih]
        exact or_left_comm

/-- What reading the recipients returns, from the participants found so far. -/
theorem parseRecipients_eq_ok {userAddress senderAddress : KulloAddress} {vals : List Json}
    {participants result : List KulloAddress}
    (h : parseRecipients userAddress senderAddress vals participants = .ok result) (p : KulloAddress) :
    p ∈ result ↔ p ∈ participants ∨
      p ≠ userAddress ∧ ∃ val ∈ vals, CheckedConverter.toKulloAddress val = .ok p ∧ p ≠ senderAddress := by
  induction vals generalizing participants with
  | nil =>
    cases h
    simp
  | cons val vals ih =>
    obtain ⟨address, haddress, h⟩ := bind_eq_ok.mp h
    have hval : CheckedConverter.toKulloAddress val = .ok address := fwdNested_eq_ok.mp haddress
    by_cases hsender : address = senderAddress
    · rw [if_pos hsender] at h
      cases h
    · rw [if_neg hsender] at h
      rw [ih h, List.exists_mem_cons_iff]
      constructor
      · rintro (hp | ⟨hp, hvals⟩)
        · split at hp
          · next huser =>
            rcases mem_insertAddress.mp hp with rfl | hp
            · exact .inr ⟨huser, .inl ⟨hval, hsender⟩⟩
            · exact .inl hp
          · exact .inl hp
        · exact .inr ⟨hp, .inr hvals⟩
      · rintro (hp | ⟨hp, ⟨hpval, _⟩ | hvals⟩)
        · left
          split
          · exact mem_insertAddress.mpr (.inr hp)
          · exact hp
        · rw [hval] at hpval
          cases hpval
          rw [if_pos hp]
          exact .inl (mem_insertAddress.mpr (.inl rfl))
        · exact .inr ⟨hp, hvals⟩

/-- Every recipient that was read is an address other than the sender's. -/
theorem parseRecipients_address {userAddress senderAddress : KulloAddress} {vals : List Json}
    {participants result : List KulloAddress}
    (h : parseRecipients userAddress senderAddress vals participants = .ok result) :
    ∀ val ∈ vals, ∃ p, CheckedConverter.toKulloAddress val = .ok p ∧ p ≠ senderAddress := by
  induction vals generalizing participants with
  | nil => simp
  | cons val vals ih =>
    obtain ⟨address, haddress, h⟩ := bind_eq_ok.mp h
    by_cases hsender : address = senderAddress
    · rw [if_pos hsender] at h
      cases h
    · rw [if_neg hsender] at h
      rw [List.forall_mem_cons]
      exact ⟨⟨address, fwdNested_eq_ok.mp haddress, hsender⟩, ih h⟩

/-- Recipients other than the sender are read. -/
theorem parseRecipients_names (userAddress : KulloAddress) {senderAddress : KulloAddress} {names : List String}
    (h : ∀ name ∈ names, ∃ p : KulloAddress, p.toString = name ∧ p ≠ senderAddress) (participants : List KulloAddress) :
    ∃ result, parseRecipients userAddress senderAddress (names.map Json.string) participants = .ok result := by
  induction names generalizing participants with
  | nil => exact ⟨participants, rfl⟩
  | cons name names ih =>
    rw [List.forall_mem_cons] at h
    obtain ⟨⟨p, rfl, hp⟩, hnames⟩ := h
    obtain ⟨result, hresult⟩ := ih hnames (if p ≠ userAddress then insertAddress p participants else participants)
    refine ⟨result, ?_⟩
    rw [List.map_cons]
    unfold parseRecipients
    rw [toKulloAddress_toString, converting_ok, ok_bind, if_neg hp, hresult]

/-- The participants of a message whose recipients are the participants of the author's conversation. -/
theorem parseRecipients_sortedNames (user : KulloAddress) {author : KulloAddress} {participants : List KulloAddress}
    (hauthor : author ∉ participants) :
    ∃ result, parseRecipients user author ((ConversationDao.sortedNames participants).map Json.string)
        (if author ≠ user then [author] else []) = .ok result ∧
      ∀ p, p ∈ result ↔ p ≠ user ∧ (p = author ∨ p ∈ participants) := by
  have hnames : ∀ name ∈ ConversationDao.sortedNames participants, ∃ p : KulloAddress, p.toString = name ∧ p ≠ author := by
    intro name hname
    obtain ⟨p, hp, rfl⟩ := ConversationDao.mem_sortedNames.mp hname
    exact ⟨p, rfl, fun h => hauthor (h ▸ hp)⟩
  obtain ⟨result, hresult⟩ := parseRecipients_names user hnames (if author ≠ user then [author] else [])
  refine ⟨result, hresult, ?_⟩
  intro p
  have hread : (∃ val ∈ (ConversationDao.sortedNames participants).map Json.string,
      CheckedConverter.toKulloAddress val = .ok p ∧ p ≠ author) ↔ p ∈ participants := by
    constructor
    · rintro ⟨val, hval, hp, _⟩
      obtain ⟨name, hname, rfl⟩ := List.mem_map.mp hval
      obtain ⟨q, hq, rfl⟩ := ConversationDao.mem_sortedNames.mp hname
      rw [toKulloAddress_toString] at hp
      cases hp
      exact hq
    · intro hp
      refine ⟨.string p.toString, ?_, toKulloAddress_toString p, fun h => hauthor (h ▸ hp)⟩
      exact List.mem_map.mpr ⟨_, ConversationDao.mem_sortedNames.mpr ⟨p, hp, rfl⟩, rfl⟩
  have hstart : p ∈ (if author ≠ user then [author] else []) ↔ p ≠ user ∧ p = author := by
    by_cases h : author = user
    · simp only [h, ne_eq, not_true_eq_false, if_false, List.not_mem_nil, false_iff, not_and]
      exact fun hp hp' => hp hp'
    · simp only [ne_eq, h, not_false_eq_true, if_true, List.mem_singleton]
      constructor
      · rintro rfl
        exact ⟨h, rfl⟩
      · exact And.right
  rw [parseRecipients_eq_ok hresult p, hread, hstart, ← and_or_left]

/-- What a reader finds in a message: the draft of the author. -/
structure DecodedDraft (db : Db) (author user : KulloAddress) (participants : List KulloAddress) (draft : DraftDao)
    (dateSent : String) (messageId : IdType) (decoder : Decoder) : Prop where
  senderAddress : decoder.sender.address = author ∧ decoder.message.row.sender = author.toString
  senderName : decoder.sender.toRow.name = draft.row.senderName
  senderOrganization : decoder.sender.toRow.organization = draft.row.senderOrganization
  dateSent : decoder.message.row.dateSent = dateSent
  text : decoder.message.row.text = draft.row.text
  footer : decoder.message.row.footer = draft.row.footer
  attachments : decoder.attachments.map AttachmentDao.row =
    receivedRows messageId (AttachmentDao.allForMessage db true draft.row.conversationId) 0
  avatar : decoder.avatar =
    if draft.row.senderAvatarMimeType.isEmpty || draft.row.senderAvatar.isEmpty then [] else draft.row.senderAvatar
  avatarMimeType : draft.row.senderAvatarMimeType ≠ "" → draft.row.senderAvatar ≠ [] →
    decoder.sender.toRow.avatarMimeType = draft.row.senderAvatarMimeType
  participantsOfAuthor : user = author → ∀ p, p ∈ decoder.participantAddresses ↔ p ∈ participants
  participantsOfReader : user ∈ participants →
    ∀ p, p ∈ decoder.participantAddresses ↔ (p ∈ participants ∧ p ≠ user) ∨ p = author

private theorem decompress_of_gunzip {compressed data : Bytes} (h : P.gunzip compressed = .ok data) :
    MessageCompressor.decompress P compressed = .ok data := by
  unfold MessageCompressor.decompress
  rw [h]

/-- The content of an encoded draft is parsed. -/
theorem parseContent_encoded (hbinary : BinaryRoundTrips P) (hdates : P.dates.Documented) (user : KulloAddress) {authorDb db : Db}
    {author : KulloAddress} {participants : List KulloAddress} {draft : DraftDao} {dateSent : String} {messageId : IdType}
    (content : DecryptedContent) (hdraft : SendableDraft P authorDb author participants draft dateSent)
    (hjson : JsonRoundTrips P (draftJson P authorDb author participants draft dateSent))
    (hdata : P.gunzip content.data = .ok (P.writeJson (draftJson P authorDb author participants draft dateSent)))
    (hstored : StoredSender db messageId author) :
    ∃ parsed, parseContent P db user messageId content = .ok parsed ∧ parsed.sender.address = author ∧
      ∀ msg dateReceived metaVersion read done, msg.id = messageId →
        DecodedDraft authorDb author user participants draft dateSent messageId
          { message := { row := messageRow msg dateReceived parsed metaVersion read done }
            sender := parsed.sender
            avatar := parsed.avatar
            participantAddresses := parsed.participantAddresses
            attachments := parsed.attachments } := by
  have hrow := draftSender_toRow author draft
  have hname : (draftSender author draft).name = draft.row.senderName := congrArg SenderRow.name hrow
  have horganization : (draftSender author draft).organization = draft.row.senderOrganization :=
    congrArg SenderRow.organization hrow
  have hmime : (draftSender author draft).avatarMimeType = draft.row.senderAvatarMimeType :=
    congrArg SenderRow.avatarMimeType hrow
  -- the three parts with a loop of their own: sender, recipients, attachments
  obtain ⟨part, hpart, haddress, hpartName, hpartOrganization, hpartMime⟩ := parseSender_encoded hbinary
    (draftSender author draft) draft.row.senderAvatar (hname ▸ hdraft.senderName)
    ((draftSender_address author draft).symm ▸ hstored)
  rw [draftSender_address] at haddress
  rw [hname] at hpartName
  rw [horganization] at hpartOrganization
  rw [hmime] at hpartMime hpart
  obtain ⟨result, hresult, hmem⟩ := parseRecipients_sortedNames user hdraft.author_notMem
  obtain ⟨atts, hatts, hattRows⟩ := parseAttachments_encoded hdraft.attachments db messageId 0
  refine ⟨⟨part, if draft.row.senderAvatarMimeType.isEmpty || draft.row.senderAvatar.isEmpty then []
    else draft.row.senderAvatar, result, atts, dateSent, draft.row.text, draft.row.footer⟩, ?_, haddress, ?_⟩
  · have hget : ∀ key value, (key, value) ∈ contentJson P (ConversationDao.sortedNames participants)
        (draftSender author draft) draft.row.senderAvatar dateSent draft.row.text draft.row.footer
        (AttachmentDao.allForMessage authorDb true draft.row.conversationId) →
        (draftJson P authorDb author participants draft dateSent).get key = .ok value := by
      intro key value hmem
      simp only [contentJson, List.mem_cons, Prod.mk.injEq, List.not_mem_nil, or_false] at hmem
      rcases hmem with ⟨rfl, rfl⟩ | ⟨rfl, rfl⟩ | ⟨rfl, rfl⟩ | ⟨rfl, rfl⟩ | ⟨rfl, rfl⟩ | ⟨rfl, rfl⟩ <;> rfl
    have hsize : (Json.array ((ConversationDao.sortedNames participants).map Json.string)).size ≠ 0 := by
      have hlen : (ConversationDao.sortedNames participants).length = participants.length := by
        simp [ConversationDao.sortedNames]
      have hpos := List.length_pos_iff.mpr hdraft.participants_ne
      simp only [Json.size, List.length_map]
      omega
    obtain ⟨now, htime, hprint⟩ := hdraft.dateSent
    -- the date is printed by the sender, parsed and printed again
    have hdate : P.toDateTime (.string dateSent) = .ok now := P.toDateTime_printed hdates htime hprint
    have hread : P.readObject (P.writeJson (draftJson P authorDb author participants draft dateSent)) =
        .ok (draftJson P authorDb author participants draft dateSent) := hjson.readObject
    unfold parseContent
    rw [decompress_of_gunzip hdata, fwdNested_ok, ok_bind, hread, fwdNested_ok, ok_bind,
      hget "sender" (encodeSender P (draftSender author draft) draft.row.senderAvatar) (by simp [contentJson]), ok_bind,
      if_neg (by simp [encodeSender, Json.isObject]), hpart, ok_bind]
    dsimp only
    rw [haddress, hget "recipients" (.array ((ConversationDao.sortedNames participants).map Json.string))
      (by simp [contentJson]), ok_bind, if_neg (by simp [Json.isArray]), if_neg hsize]
    change (parseRecipients user author ((ConversationDao.sortedNames participants).map Json.string) _ >>= _) = _
    rw [hresult, ok_bind, hget "attachmentsIndex" (.array
      ((AttachmentDao.allForMessage authorDb true draft.row.conversationId).map attachmentIndexElement))
      (by simp [contentJson]), ok_bind]
    change (parseAttachments db messageId
      ((AttachmentDao.allForMessage authorDb true draft.row.conversationId).map attachmentIndexElement) 0 >>= _) = _
    rw [hatts, ok_bind, hget "dateSent" (.string dateSent) (by simp [contentJson]), ok_bind, hdate, ok_bind, hprint,
      converting_ok, ok_bind, hget "text" (.string draft.row.text) (by simp [contentJson]), ok_bind, toStringOr_string, converting_ok,
      ok_bind, hget "footer" (.string draft.row.footer) (by simp [contentJson]), ok_bind, toStringOr_string,
      converting_ok, ok_bind]
  · intro msg dateReceived metaVersion read done hid
    exact
      { senderAddress := ⟨haddress, congrArg KulloAddress.toString haddress⟩
        senderName := hpartName
        senderOrganization := hpartOrganization
        dateSent := rfl
        text := rfl
        footer := rfl
        attachments := hattRows
        avatar := rfl
        avatarMimeType := hpartMime
        -- the author's own copy lists the recipients
        participantsOfAuthor := by
          rintro rfl p
          rw [hmem p]
          constructor
          · rintro ⟨hp, hp' | hp'⟩
            · exact absurd hp' hp
            · exact hp'
          · intro hp
            exact ⟨fun h => hdraft.author_notMem (h ▸ hp), .inr hp⟩
        -- a recipient sees the author and the other recipients
        participantsOfReader := by
          intro huser p
          have hne : author ≠ user := fun h => hdraft.author_notMem (h ▸ huser)
          rw [hmem p]
          constructor
          · rintro ⟨hp, hp' | hp'⟩
            · exact .inr hp'
            · exact .inl ⟨hp', hp⟩
          · rintro (⟨hp', hp⟩ | rfl)
            · exact ⟨hp, .inr hp'⟩
            · exact ⟨hne, .inl rfl⟩ }

/-- Meta data that a message arrives with: none, or what the encoder writes. -/
def EncodedMeta (P : Platform) (metaVersion : MetaVersion) (metaText : Bytes) : Prop :=
  metaText = [] ∨ ∃ read done, metaVersion = 1 ∧ metaText = encodeMeta P read done ∧
    JsonRoundTrips P (metaJson read done)

private theorem parseMeta_encoded (user author : KulloAddress) {metaVersion : MetaVersion} {metaText : Bytes}
    (h : EncodedMeta P metaVersion metaText) :
    ∃ flags, parseMeta P user author metaVersion metaText = .ok flags := by
  have hnull : ∀ name, metaFlag metaVersion .null name = .ok false := by
    intro name
    unfold metaFlag
    by_cases hv : metaVersion = 0
    · rw [if_pos hv]
      rfl
    · rw [if_neg hv]
      rfl
  unfold parseMeta
  split
  · exact ⟨_, rfl⟩
  · split
    · by_cases hempty : metaText = []
      · refine ⟨(metaVersion, false, false), ?_⟩
        dsimp only
        rw [if_pos (by simp [hempty]), ok_bind, hnull, ok_bind, hnull, ok_bind]
      · rcases h with h | ⟨read, done, rfl, rfl, hjson⟩
        · exact absurd h hempty
        · have hread : P.readObject (encodeMeta P read done) = .ok (metaJson read done) := hjson.readObject
          have hflagRead : metaFlag 1 (metaJson read done) "read" = .ok read := by cases read <;> rfl
          have hflagDone : metaFlag 1 (metaJson read done) "done" = .ok done := by cases done <;> rfl
          refine ⟨(1, read, done), ?_⟩
          dsimp only
          rw [if_neg (by simpa using hempty), hread, fwdNested_ok, ok_bind, hflagRead, ok_bind, hflagDone, ok_bind]
    · exact ⟨_, rfl⟩

/-- The participants of content that was parsed: there is one, and none is the reader. -/
theorem parseContent_participants {db : Db} {user : KulloAddress} {messageId : IdType} {content : DecryptedContent}
    {parsed : ParsedContent} (h : parseContent P db user messageId content = .ok parsed) :
    parsed.participantAddresses ≠ [] ∧ user ∉ parsed.participantAddresses := by
  obtain ⟨data, _, h⟩ := bind_eq_ok.mp h
  obtain ⟨messageJson, _, h⟩ := bind_eq_ok.mp h
  obtain ⟨senderJson, _, h⟩ := bind_eq_ok.mp h
  by_cases hobject : (!senderJson.isObject) = true
  · rw [if_pos hobject] at h
    cases h
  rw [if_neg hobject] at h
  obtain ⟨⟨sender, avatar⟩, _, h⟩ := bind_eq_ok.mp h
  obtain ⟨recipients, _, h⟩ := bind_eq_ok.mp h
  by_cases harray : (!recipients.isArray) = true
  · rw [if_pos harray] at h
    cases h
  rw [if_neg harray] at h
  by_cases hsize : recipients.size = 0
  · rw [if_pos hsize] at h
    cases h
  rw [if_neg hsize] at h
  obtain ⟨participants, hparticipants, h⟩ := bind_eq_ok.mp h
  have hmem := parseRecipients_eq_ok hparticipants
  have hresult : parsed.participantAddresses = participants := by
    obtain ⟨index, _, h⟩ := bind_eq_ok.mp h
    obtain ⟨attachments, _, h⟩ := bind_eq_ok.mp h
    obtain ⟨dateJson, _, h⟩ := bind_eq_ok.mp h
    obtain ⟨text, _, h⟩ := bind_eq_ok.mp h
    obtain ⟨footer, _, h⟩ := bind_eq_ok.mp h
    cases h
    rfl
  rw [hresult]
  constructor
  · -- the sender is a participant, unless the message is the reader's own: then every recipient is
    intro hnil
    by_cases hsender : sender.address = user
    · obtain ⟨val, hval⟩ : ∃ val, val ∈ recipients.elements := by
        cases recipients with
        | array elements => exact List.exists_mem_of_ne_nil elements (fun hnil => hsize (by simp [hnil, Json.size]))
        | _ => exact absurd rfl harray
      obtain ⟨p, hp, hne⟩ := parseRecipients_address hparticipants val hval
      have hin : p ∈ participants := (hmem p).mpr (.inr ⟨hsender ▸ hne, val, hval, hp, hne⟩)
      rw [hnil] at hin
      cases hin
    · have hin : sender.address ∈ participants := (hmem _).mpr (.inl (by simp [hsender]))
      rw [hnil] at hin
      cases hin
  · intro huser
    rcases (hmem user).mp huser with hstart | ⟨hne, _⟩
    · by_cases hsender : sender.address = user
      · simp [hsender] at hstart
      · simp only [ne_eq, hsender, not_false_eq_true, if_true, List.mem_singleton] at hstart
        exact hsender hstart.symm
    · exact hne rfl

/-! ### The round trip -/

/-- A message that a reader got of the compressed encoding, with the time at which the server received it and the
signature he can check. -/
structure ReceivedFrom (P : Platform) (db : Db) (author : KulloAddress) (compressed : EncodedMessage)
    (msg : DecryptedMessage) : Prop where
  dateReceived : msg.dateReceived.IsTime
  data : msg.content.data = compressed.content
  metaText : EncodedMeta P msg.metaVersion msg.metaText
  signature : verifyContent P db author msg.content = .ok ()
  sender : StoredSender db msg.id author

/-- An admitted draft is encoded and compressed, and whoever of the participants and the author reads the result finds
the draft in it.  The participants of any message that is decoded are others than the reader. -/
theorem decode_encodeDraft (hbinary : BinaryRoundTrips P) (hdates : P.dates.Documented) {authorDb : Db} {author : KulloAddress}
    {participants : List KulloAddress} {draft : DraftDao} {dateSent : String}
    (hdraft : SendableDraft P authorDb author participants draft dateSent)
    (hjson : JsonRoundTrips P (draftJson P authorDb author participants draft dateSent)) :
    (∃ encoded compressed, encodeDraft P authorDb author draft dateSent = .ok encoded ∧
      MessageCompressor.compress P encoded = .ok compressed ∧
      ∀ (db : Db) (user : KulloAddress) (msg : DecryptedMessage), user = author ∨ user ∈ participants →
        ReceivedFrom P db author compressed msg →
        ∃ decoder, decode P db user msg = .ok decoder ∧
          DecodedDraft authorDb author user participants draft dateSent msg.id decoder) ∧
    ∀ (db : Db) (user : KulloAddress) (msg : DecryptedMessage) (decoder : Decoder),
      decode P db user msg = .ok decoder →
        decoder.participantAddresses ≠ [] ∧ user ∉ decoder.participantAddresses := by
  constructor
  · obtain ⟨data, hencode⟩ := encodeDraft_eq_ok P hdraft
    obtain ⟨content, hgzip, hgunzip⟩ :=
      hbinary.gzip (P.writeJson (draftJson P authorDb author participants draft dateSent))
    obtain ⟨compressed, hcompress, hcontent⟩ : ∃ compressed, MessageCompressor.compress P
        ⟨P.writeJson (draftJson P authorDb author participants draft dateSent), data⟩ = .ok compressed ∧
        compressed.content = content := by
      unfold MessageCompressor.compress MessageCompressor.compressContent MessageCompressor.compressAttachments
      dsimp only
      rw [hgzip, ok_bind, ok_bind]
      dsimp only
      -- attachments of no bytes are not compressed
      by_cases hdata : data.isEmpty = true
      · rw [if_pos hdata]
        exact ⟨_, rfl, rfl⟩
      · obtain ⟨attachments, hattachments, _⟩ := hbinary.gzip data
        rw [if_neg hdata, hattachments]
        exact ⟨_, rfl, rfl⟩
    refine ⟨_, compressed, hencode, hcompress, ?_⟩
    intro db user msg _ hreceived
    -- what is unpacked is the content the author packed
    have hdata : P.gunzip msg.content.data =
        .ok (P.writeJson (draftJson P authorDb author participants draft dateSent)) := by
      rw [hreceived.data, hcontent, hgunzip]
    obtain ⟨parsed, hparsed, haddress, hdecoded⟩ :=
      parseContent_encoded hbinary hdates user _ hdraft hjson hdata hreceived.sender
    obtain ⟨dateReceived, hdate⟩ := P.printDateTime_isTime hdates hreceived.dateReceived
    obtain ⟨flags, hflags⟩ := parseMeta_encoded user author hreceived.metaText
    refine ⟨_, decode_eq_ok.mpr ⟨dateReceived, parsed, flags, hdate, hparsed, ?_, ?_, rfl⟩,
      hdecoded msg dateReceived _ _ _ rfl⟩
    · rw [haddress]
      exact hreceived.signature
    · rw [haddress]
      exact hflags
  · intro db user msg decoder h
    obtain ⟨_, parsed, flags, _, hparsed, _, _, rfl⟩ := decode_eq_ok.mp h
    exact parseContent_participants hparsed

/-! ### A draft with an attachment -/

def alice : KulloAddress := .alice

def bob : KulloAddress := .bob

def letterHash : String := String.ofList (List.replicate 128 '0')

def letterAttachment : AttachmentRow := ⟨true, 1, 0, "a.txt", "text/plain", 2, letterHash, ""⟩

/-- The database of the author, with a conversation and the attachment of its draft. -/
def letterDb : Db where
  conversations := ⟨[⟨1, "bob#kullo.test"⟩], by simp⟩
  attachments := ⟨[letterAttachment], by simp⟩
  attachmentsContent := ⟨[⟨true, 1, 0, some [104, 105]⟩], by simp⟩

def letter : DraftDao := .ofRow
  { conversationId := 1, text := "hello", senderName := "Alice", state := .sending }

/-- 2020-01-01T00:00:00Z. -/
def letterTime : DateTime := ⟨some 212444640000, 0⟩

theorem letterTime_isTime : letterTime.IsTime := ⟨2020, 1, 1, 0, 0, by decide, by decide, by decide, by decide, rfl⟩

/-- The time as it is printed. -/
def letterDate : String := "2020-01-01T00:00:00+00:00"

/-- A platform on which the content of the draft is written as text and read again. -/
def letterPlatform : Platform :=
  { Platform.tagging with
    writeJson := fun _ => toBytes ("\x7b\"attachmentsIndex\":[\x7b\"filename\":\"a.txt\",\"hash\":\"" ++ letterHash ++
      "\",\"mimeType\":\"text/plain\",\"note\":\"\",\"size\":2\x7d],\"dateSent\":\"2020-01-01T00:00:00+00:00\"," ++
      "\"footer\":\"\",\"recipients\":[\"bob#kullo.test\"],\"sender\":\x7b\"address\":\"alice#kullo.test\"," ++
      "\"avatar\":\x7b\x7d,\"name\":\"Alice\",\"organization\":\"\"\x7d,\"text\":\"hello\"\x7d\n")
    parseJson := fun _ => .ok (.ok (draftJson Platform.tagging letterDb alice [bob] letter letterDate)) }

/-- The database of the recipient, with the author's key. -/
def bobDb : Db where
  keysPublic := ⟨[⟨"alice#kullo.test", .signature, 1, []⟩], by simp⟩

def letterMessage : DecryptedMessage where
  id := 7
  lastModified := 1
  dateReceived := letterTime
  keySafe := ⟨[]⟩
  content := ⟨1, [], letterPlatform.writeJson (draftJson letterPlatform letterDb alice [bob] letter letterDate)⟩
  metaVersion := 0
  metaText := []

private theorem zeros_hex (n : Nat) :
    CheckedConverter.isValidHexString (String.ofList (List.replicate n '0')) = true ∧
      (String.ofList (List.replicate n '0')).length = n := by
  constructor
  · unfold CheckedConverter.isValidHexString
    rw [String.toList_ofList, List.all_eq_true]
    intro c hc
    rw [List.eq_of_mem_replicate hc]
    decide
  · rw [String.length_ofList, List.length_replicate]

theorem letter_sendable : SendableDraft letterPlatform letterDb alice [bob] letter letterDate where
  senderName := by decide
  conversation := ⟨⟨1, "bob#kullo.test"⟩, rfl, rfl⟩
  participants_ne := by simp
  author_notMem := by decide
  attachments := by
    intro dao hdao
    have hall : AttachmentDao.allForMessage letterDb true letter.row.conversationId = [.ofRow letterAttachment] := rfl
    rw [hall, List.mem_singleton] at hdao
    subst hdao
    exact
      { filename := by decide
        mimeType := by decide
        content := ⟨⟨true, 1, 0, some [104, 105]⟩, rfl, rfl⟩
        size := by decide
        hash := (zeros_hex 128).1
        hashLength := (zeros_hex 128).2 }
  dateSent := ⟨letterTime, letterTime_isTime, rfl⟩

theorem letter_binary : BinaryRoundTrips letterPlatform where
  base64 := Platform.tagging_base64
  base64_empty := rfl
  gzip := fun data => ⟨data, rfl, rfl⟩

/-- The recipient reads the draft. -/
theorem decode_encodeDraft_letter :
    ∃ decoder, decode letterPlatform bobDb bob letterMessage = .ok decoder ∧
      DecodedDraft letterDb alice bob [bob] letter letterDate 7 decoder := by
  obtain ⟨encoded, compressed, hencode, hcompress, hread⟩ :=
    (decode_encodeDraft letter_binary DateLibrary.gregorian_documented letter_sendable rfl).1
  have hcontent : compressed.content = letterMessage.content.data := by
    obtain ⟨data, hdata⟩ := encodeDraft_eq_ok letterPlatform letter_sendable
    rw [hdata] at hencode
    cases hencode
    have hsame : ∀ msg, MessageCompressor.compress letterPlatform msg = .ok msg := by
      rintro ⟨content, attachments⟩
      cases attachments <;> rfl
    rw [hsame] at hcompress
    cases hcompress
    rfl
  exact hread bobDb bob letterMessage (.inr (by simp))
    { dateReceived := letterTime_isTime
      data := hcontent.symm
      metaText := .inl rfl
      signature := rfl
      sender := by
        intro r hr
        cases hr }

end MessageDecoder

end KulloClient
