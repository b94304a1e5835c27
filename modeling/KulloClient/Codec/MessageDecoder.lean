import KulloClient.Codec.MessageDecryptor
import KulloClient.Dao.Conversation

/-!
# MessageDecoder

From decrypted bytes to the daos of a message.  Decoding reads the database, for rows the message may already have and
for the key its signature is checked with, and writes nothing.
-/

namespace KulloClient

open Imperative

namespace PublicKeyDao

/-- `PublicKeyDao::load`. -/
def load (db : Db) (address : KulloAddress) (keyType : AsymmetricKeyType) (id : IdType) : Option PublicKeyRow :=
  db.keysPublic.find? (address.toString, id, keyType)

end PublicKeyDao

/-- What a decoder holds after `parseContent`. -/
structure ParsedContent where
  sender : SenderDao
  avatar : Bytes
  participantAddresses : List KulloAddress
  attachments : List AttachmentDao
  dateSent : String
  text : String
  footer : String

/-- What a decoder holds after `decode`. -/
structure Decoder where
  message : MessageDao
  sender : SenderDao
  avatar : Bytes
  participantAddresses : List KulloAddress
  attachments : List AttachmentDao

/-- The conversation of a message that is added. -/
def conversationFor (db : Db) (participants : List KulloAddress) : ConversationDao :=
  match ConversationDao.loadByParticipants db participants with
  | some conv => conv
  | none => ({} : ConversationDao).setParticipants participants

namespace MessageDecoder

variable (P : Platform)

/-- `FWD_NESTED(..., ConversionException, InvalidContentFormat(message))`. -/
def converting {α : Type} (message : String) (result : Except Exn α) : Except Exn α :=
  fwdNested result Exn.isConversionException (.invalidContentFormat message)

/-- `parseSender`: a stored sender row keeps its address, whatever the message says. -/
def parseSender (db : Db) (sender : Json) (messageId : IdType) : Except Exn (SenderDao × Bytes) := do
  let address ← converting "sender address invalid" (do CheckedConverter.toKulloAddress (← sender.get "address"))
  let part := match ← SenderDao.load db messageId with
    | some part => part
    | none => (SenderDao.new address).setMessageId messageId
  let name ← converting "sender name invalid" (do CheckedConverter.toString (← sender.get "name") .no)
  let organization ←
    converting "sender organization invalid" (do CheckedConverter.toStringOr (← sender.get "organization") "")
  let part := (part.setName name).setOrganization organization
  let avatarJson ← sender.get "avatar"
  if !(avatarJson.isNull || avatarJson.isObject) then
    .error (.invalidContentFormat "sender.avatar must be null or an object")
  else if avatarJson.size = 0 then .ok (part, [])
  else if avatarJson.size = 2 then do
    let mimeType ← converting "avatar mimeType invalid" (do CheckedConverter.toString (← avatarJson.get "mimeType") .no)
    let avatar ← converting "avatar data invalid" (do P.toVector (← avatarJson.get "data") .no)
    .ok ((part.setAvatarMimeType mimeType).setAvatarHash (some (P.eightByteHash avatar)), avatar)
  else .error (.invalidContentFormat "sender.avatar must be empty or consist of mimeType and data")

/-- The recipients of a message, of which the participants are those that are not the user. -/
def parseRecipients (userAddress senderAddress : KulloAddress) :
    List Json → List KulloAddress → Except Exn (List KulloAddress)
  | [], participants => .ok participants
  | val :: vals, participants => do
    let address ← converting "recipient address invalid" (CheckedConverter.toKulloAddress val)
    if address = senderAddress then .error (.invalidContentFormat "Sender must not be in recipients list.")
    else
      parseRecipients userAddress senderAddress vals
        (if address ≠ userAddress then insertAddress address participants else participants)

/-- 512 bit, two digits a byte. -/
def expectedHashLength : Nat := 512 / 8 * 2

/-- One element of the attachments index. -/
def parseAttachment (db : Db) (messageId index : IdType) (attJson : Json) : Except Exn AttachmentDao := do
  let att := (AttachmentDao.load db false messageId index).getD (AttachmentDao.new false messageId index)
  let filename ← converting "attachment filename invalid" (do CheckedConverter.toString (← attJson.get "filename") .no)
  let mimeType ← converting "attachment mimeType invalid" (do CheckedConverter.toString (← attJson.get "mimeType") .no)
  let size ← converting "attachment size invalid" (do CheckedConverter.toUint32 (← attJson.get "size"))
  let note ← converting "attachment note invalid" (do CheckedConverter.toStringOr (← attJson.get "note") "")
  let hash ← converting "attachment hash invalid" (do CheckedConverter.toHexString (← attJson.get "hash") .no)
  if hash.length ≠ expectedHashLength then
    .error (.invalidContentFormat ("attachment hash has invalid length: " ++ toString hash.length ++ ", should be " ++
      toString expectedHashLength))
  else .ok (((((att.setFilename filename).setMimeType mimeType).setSize size).setNote note).setHash hash)

/-- `parseAttachments`, from a given index on. -/
def parseAttachments (db : Db) (messageId : IdType) : List Json → IdType → Except Exn (List AttachmentDao)
  | [], _ => .ok []
  | attJson :: rest, index => do
    let att ← parseAttachment db messageId index attJson
    let atts ← parseAttachments db messageId rest (index + 1)
    .ok (att :: atts)

def parseContent (db : Db) (userAddress : KulloAddress) (messageId : IdType) (content : DecryptedContent) :
    Except Exn ParsedContent := do
  let data ← fwdNested (MessageCompressor.decompress P content.data) Exn.isGZipStreamError (.invalidContentFormat "")
  let messageJson ← fwdNested (P.readObject data) Exn.isJsonException (.invalidContentFormat "")
  let senderJson ← messageJson.get "sender"
  if !senderJson.isObject then .error (.invalidContentFormat "sender is not an object")
  else do
    let (sender, avatar) ← parseSender P db senderJson messageId
    let participants := if sender.address ≠ userAddress then [sender.address] else []
    let recipients ← messageJson.get "recipients"
    if !recipients.isArray then .error (.invalidContentFormat "recipients is not an array")
    else if recipients.size = 0 then .error (.invalidContentFormat "recipients are empty")
    else do
      let participants ← parseRecipients userAddress sender.address recipients.elements participants
      let attachments ← parseAttachments db messageId (← messageJson.get "attachmentsIndex").elements 0
      -- the date is stored as it is printed, not as it was sent
      let dateSent ← converting "date sent invalid"
        (do P.printDateTime (← P.toDateTime (← messageJson.get "dateSent")))
      let text ← converting "text invalid" (do CheckedConverter.toStringOr (← messageJson.get "text") "")
      let footer ← converting "footer invalid" (do CheckedConverter.toStringOr (← messageJson.get "footer") "")
      .ok ⟨sender, avatar, participants, attachments, dateSent, text, footer⟩

def verifyContent (db : Db) (sender : KulloAddress) (content : DecryptedContent) : Except Exn Unit := do
  match PublicKeyDao.load db sender .signature content.sigKeyId with
  | none => .error .signatureVerificationKeyMissing
  | some sigKeyRow => do
    let sigKey ← Platform.ofBotan (P.loadPublicKey sigKeyRow.keyData)
    if ← Platform.ofBotan (P.verify content.data content.signature sigKey) then .ok ()
    else .error .signatureVerificationFailed

/-- A field of the meta data: a boolean in version 0, a number in version 1. -/
def metaFlag (version : MetaVersion) (metaJson : Json) (name : String) : Except Exn Bool :=
  converting ("meta (version " ++ toString version ++ ") " ++ name ++ " invalid") do
    if version = 0 then CheckedConverter.toBoolOr (← metaJson.get name) false
    else
      let n ← CheckedConverter.toUint32Or (← metaJson.get name) 0
      .ok (n ≠ 0)

/-- `parseMeta`: the meta version and the read and done flags a message is given.  A message of the user himself, and one
of an unknown meta version, is read and done. -/
def parseMeta (userAddress sender : KulloAddress) (metaVersion : MetaVersion) (metaText : Bytes) :
    Except Exn (MetaVersion × Bool × Bool) :=
  if userAddress = sender then .ok (latestMetaVersion, true, true)
  else if metaVersion ≤ latestMetaVersion then do
    let metaJson ←
      if metaText.isEmpty then .ok .null
      else
        fwdNested (P.readObject metaText) Exn.isJsonException
          (.invalidContentFormat ("meta (version " ++ toString metaVersion ++ ") invalid"))
    let read ← metaFlag metaVersion metaJson "read"
    let done ← metaFlag metaVersion metaJson "done"
    .ok (metaVersion, read, done)
  else .ok (metaVersion, true, true)

/-- The row a decoder makes. -/
def messageRow (msg : DecryptedMessage) (dateReceived : String) (parsed : ParsedContent) (metaVersion : MetaVersion)
    (read done : Bool) : MessageRow where
  id := msg.id
  lastModified := msg.lastModified
  dateReceived := dateReceived
  symmetricKey := msg.keySafe.symmKey
  sender := parsed.sender.address.toString
  dateSent := parsed.dateSent
  text := parsed.text
  footer := parsed.footer
  metaVersion := metaVersion
  read := read
  done := done

/-- `decode`, with the signature verified.  The date at which the message was received is printed before anything is
caught. -/
def decode (db : Db) (userAddress : KulloAddress) (msg : DecryptedMessage) : Except Exn Decoder := do
  let dateReceived ← P.printDateTime msg.dateReceived
  converting "MessageDecoder::decode()" do
    let parsed ← parseContent P db userAddress msg.id msg.content
    verifyContent P db parsed.sender.address msg.content
    let (metaVersion, read, done) ← parseMeta P userAddress parsed.sender.address msg.metaVersion msg.metaText
    .ok
      { message := { row := messageRow msg dateReceived parsed metaVersion read done }
        sender := parsed.sender
        avatar := parsed.avatar
        participantAddresses := parsed.participantAddresses
        attachments := parsed.attachments }

/-! ### What decoding raises -/

/-- The exceptions of parsing: `decode`'s own, and those of jsoncpp, of a stored sender's address and of a date without
a text. -/
def isParseFailure : Exn → Bool
  | .invalidContentFormat _ => true
  | .jsonLogicError _ => true
  | .jsonRuntimeError _ => true
  | .invalidArgument _ => true
  | .outOfRange _ => true
  | _ => false

/-- The exceptions of verifying: `decode`'s own, and those of Botan. -/
def isVerifyFailure : Exn → Bool
  | .signatureVerificationKeyMissing => true
  | .signatureVerificationFailed => true
  | .botanException _ => true
  | _ => false

private theorem isParseFailure_of_isJsonLogicError {e : Exn} (h : e.isJsonLogicError = true) : isParseFailure e = true := by
  cases e <;> simp_all [isParseFailure, Exn.isJsonLogicError]

private theorem isVerifyFailure_of_isBotanException {e : Exn} (h : e.isBotanException = true) : isVerifyFailure e = true := by
  cases e <;> simp_all [isVerifyFailure, Exn.isBotanException]

private theorem isParseFailure_of_isInvalidArgument {e : Exn} (h : e.isInvalidArgument = true) : isParseFailure e = true := by
  cases e <;> simp_all [isParseFailure, Exn.isInvalidArgument]

private theorem converting_raises {α : Type} {message : String} {x : Except Exn α}
    (h : RaisesOnly (fun e => isParseFailure e = true ∨ e.isConversionException = true) x) :
    RaisesOnly (fun e => isParseFailure e = true) (converting message x) := by
  refine fwdNested_raises h rfl ?_
  rintro e (he | he) hc
  · exact he
  · rw [he] at hc; cases hc

/-- A member of a value, converted. -/
theorem converting_member_raises {α : Type} {message key : String} {value : Json} {convert : Json → Except Exn α}
    (h : ∀ v, RaisesOnly (fun e => e.isConversionException = true) (convert v)) :
    RaisesOnly (fun e => isParseFailure e = true) (converting message (value.get key >>= convert)) := by
  refine converting_raises (raisesOnly_bind ?_ (fun v _ => (h v).mono fun _ => .inr))
  exact (Json.get_raises value key).mono (fun _ he => .inl (isParseFailure_of_isJsonLogicError he))

theorem readObject_raises {α : Type} {text : Bytes} {nested : Exn} {f : Json → Except Exn α}
    (hn : isParseFailure nested = true) (hf : ∀ json, RaisesOnly (fun e => isParseFailure e = true) (f json)) :
    RaisesOnly (fun e => isParseFailure e = true)
      (fwdNested (P.readObject text) Exn.isJsonException nested >>= f) := by
  refine raisesOnly_bind (fwdNested_raises (P.readObject_raises text) hn ?_) (fun json _ => hf json)
  intro e he hc
  cases e <;> simp_all [isParseFailure, Exn.isJsonException, Exn.isJsonRuntimeError]

private theorem get_isParseFailure (value : Json) (key : String) : RaisesOnly (fun e => isParseFailure e = true) (value.get key) :=
  (Json.get_raises value key).mono (fun _ => isParseFailure_of_isJsonLogicError)

private theorem printDateTime_isParseFailure (dateTime : DateTime) :
    RaisesOnly (fun e => isParseFailure e = true) (P.printDateTime dateTime) := by
  refine (P.printDateTime_raises dateTime).mono ?_
  rintro e ⟨message, rfl⟩
  rfl

private theorem parseSender_raises (db : Db) (sender : Json) (messageId : IdType) :
    RaisesOnly (fun e => isParseFailure e = true) (parseSender P db sender messageId) := by
  refine raisesOnly_bind (converting_member_raises CheckedConverter.toKulloAddress_raises) (fun address _ => ?_)
  refine raisesOnly_bind ?_ (fun part _ => ?_)
  · unfold SenderDao.load
    split
    · simp
    · exact raisesOnly_bind ((KulloAddress.ofString_raises _).mono fun _ => isParseFailure_of_isInvalidArgument)
        (fun _ _ => raisesOnly_ok _)
  refine raisesOnly_bind (converting_member_raises fun v => CheckedConverter.toString_raises v .no) (fun name _ => ?_)
  refine raisesOnly_bind (converting_member_raises fun v => CheckedConverter.orDefault_raises fun v =>
    CheckedConverter.toString_raises v _) (fun organization _ => ?_)
  refine raisesOnly_bind (get_isParseFailure _ _) (fun avatarJson _ => ?_)
  split
  · simp [isParseFailure]
  split
  · simp
  split
  · refine raisesOnly_bind (converting_member_raises fun v => CheckedConverter.toString_raises v .no)
      (fun mimeType _ => ?_)
    exact raisesOnly_bind (converting_member_raises fun v => P.toVector_raises v .no) (fun _ _ => raisesOnly_ok _)
  · simp [isParseFailure]

private theorem parseRecipients_raises (userAddress senderAddress : KulloAddress) (vals : List Json)
    (participants : List KulloAddress) :
    RaisesOnly (fun e => isParseFailure e = true) (parseRecipients userAddress senderAddress vals participants) := by
  induction vals generalizing participants with
  | nil => exact raisesOnly_ok _
  | cons val vals ih =>
    refine raisesOnly_bind (converting_raises ?_) (fun address _ => ?_)
    · exact (CheckedConverter.toKulloAddress_raises val).mono (fun _ => .inr)
    split
    · simp [isParseFailure]
    · exact ih _

private theorem parseAttachment_raises (db : Db) (messageId index : IdType) (attJson : Json) :
    RaisesOnly (fun e => isParseFailure e = true) (parseAttachment db messageId index attJson) := by
  refine raisesOnly_bind (converting_member_raises fun v => CheckedConverter.toString_raises v .no) (fun _ _ => ?_)
  refine raisesOnly_bind (converting_member_raises fun v => CheckedConverter.toString_raises v .no) (fun _ _ => ?_)
  refine raisesOnly_bind (converting_member_raises CheckedConverter.toUint32_raises) (fun _ _ => ?_)
  refine raisesOnly_bind (converting_member_raises fun v => CheckedConverter.orDefault_raises fun v =>
    CheckedConverter.toString_raises v _) (fun _ _ => ?_)
  refine raisesOnly_bind (converting_member_raises fun v => CheckedConverter.toHexString_raises v .no) (fun _ _ => ?_)
  split <;> simp [isParseFailure]

private theorem parseAttachments_raises (db : Db) (messageId : IdType) (vals : List Json) (index : IdType) :
    RaisesOnly (fun e => isParseFailure e = true) (parseAttachments db messageId vals index) := by
  induction vals generalizing index with
  | nil => exact raisesOnly_ok _
  | cons attJson rest ih =>
    refine raisesOnly_bind (parseAttachment_raises db messageId index attJson) (fun _ _ => ?_)
    exact raisesOnly_bind (ih (index + 1)) (fun _ _ => raisesOnly_ok _)

theorem parseContent_raises (db : Db) (userAddress : KulloAddress) (messageId : IdType) (content : DecryptedContent) :
    RaisesOnly (fun e => isParseFailure e = true) (parseContent P db userAddress messageId content) := by
  refine raisesOnly_bind ?_ (fun data _ => ?_)
  · unfold MessageCompressor.decompress
    split <;> simp [fwdNested, isParseFailure, Exn.isGZipStreamError]
  refine readObject_raises P rfl (fun messageJson => ?_)
  refine raisesOnly_bind (get_isParseFailure _ _) (fun senderJson _ => ?_)
  split
  · simp [isParseFailure]
  refine raisesOnly_bind (parseSender_raises P db senderJson messageId) (fun sender _ => ?_)
  refine raisesOnly_bind (get_isParseFailure _ _) (fun recipients _ => ?_)
  split
  · simp [isParseFailure]
  split
  · simp [isParseFailure]
  refine raisesOnly_bind (parseRecipients_raises _ _ _ _) (fun _ _ => ?_)
  refine raisesOnly_bind (get_isParseFailure _ _) (fun _ _ => ?_)
  refine raisesOnly_bind (parseAttachments_raises _ _ _ _) (fun _ _ => ?_)
  refine raisesOnly_bind (converting_raises ?_) (fun _ _ => ?_)
  · refine raisesOnly_bind ((get_isParseFailure _ _).mono fun _ => .inl) (fun v _ => ?_)
    refine raisesOnly_bind ((P.toDateTime_raises v).mono fun _ => .inr) (fun dateTime _ => ?_)
    exact (printDateTime_isParseFailure P dateTime).mono fun _ => .inl
  refine raisesOnly_bind (converting_member_raises fun v => CheckedConverter.orDefault_raises fun v =>
    CheckedConverter.toString_raises v _) (fun _ _ => ?_)
  exact raisesOnly_bind (converting_member_raises fun v => CheckedConverter.orDefault_raises fun v =>
    CheckedConverter.toString_raises v _) (fun _ _ => raisesOnly_ok _)

private theorem verifyContent_raises (db : Db) (sender : KulloAddress) (content : DecryptedContent) :
    RaisesOnly (fun e => isVerifyFailure e = true) (verifyContent P db sender content) := by
  unfold verifyContent
  split
  · simp [isVerifyFailure]
  refine raisesOnly_bind ((Platform.ofBotan_raises _).mono fun _ => isVerifyFailure_of_isBotanException) (fun sigKey _ => ?_)
  refine raisesOnly_bind ((Platform.ofBotan_raises _).mono fun _ => isVerifyFailure_of_isBotanException) (fun verified _ => ?_)
  split <;> simp [isVerifyFailure]

private theorem metaFlag_raises (version : MetaVersion) (metaJson : Json) (name : String) :
    RaisesOnly (fun e => isParseFailure e = true) (metaFlag version metaJson name) := by
  unfold metaFlag
  refine converting_raises ?_
  have hget : RaisesOnly (fun e => isParseFailure e = true ∨ e.isConversionException = true) (metaJson.get name) :=
    (get_isParseFailure metaJson name).mono (fun _ => .inl)
  split
  · exact raisesOnly_bind hget fun v _ =>
      (CheckedConverter.orDefault_raises CheckedConverter.toBool_raises).mono (fun _ => .inr)
  · exact raisesOnly_bind hget fun v _ => raisesOnly_bind
      ((CheckedConverter.orDefault_raises CheckedConverter.toUint32_raises).mono fun _ => .inr)
      (fun _ _ => raisesOnly_ok _)

theorem parseMeta_raises (userAddress sender : KulloAddress) (metaVersion : MetaVersion) (metaText : Bytes) :
    RaisesOnly (fun e => isParseFailure e = true) (parseMeta P userAddress sender metaVersion metaText) := by
  unfold parseMeta
  split
  · simp
  split
  · have hflags : ∀ metaJson : Json, RaisesOnly (fun e => isParseFailure e = true) (do
        let read ← metaFlag metaVersion metaJson "read"
        let done ← metaFlag metaVersion metaJson "done"
        .ok (metaVersion, read, done)) := fun metaJson =>
      raisesOnly_bind (metaFlag_raises _ _ _) fun _ _ => raisesOnly_bind (metaFlag_raises _ _ _)
        fun _ _ => raisesOnly_ok _
    split
    · exact raisesOnly_bind (raisesOnly_ok _) (fun metaJson _ => hflags metaJson)
    · exact readObject_raises P rfl hflags
  · simp

theorem decode_raises (db : Db) (userAddress : KulloAddress) (msg : DecryptedMessage) :
    RaisesOnly (fun e => isParseFailure e = true ∨ isVerifyFailure e = true) (decode P db userAddress msg) := by
  refine raisesOnly_bind ((printDateTime_isParseFailure P _).mono fun _ => .inl) (fun dateReceived _ => ?_)
  refine fwdNested_raises (q := fun e => isParseFailure e = true ∨ isVerifyFailure e = true) ?_ (.inl rfl) ?_
  · refine raisesOnly_bind ((parseContent_raises P db userAddress msg.id msg.content).mono fun _ => .inl) (fun parsed _ => ?_)
    refine raisesOnly_bind ((verifyContent_raises P db _ msg.content).mono fun _ => .inr) (fun _ _ => ?_)
    exact raisesOnly_bind ((parseMeta_raises P _ _ _ _).mono fun _ => .inl) (fun _ _ => raisesOnly_ok _)
  · exact fun e he _ => he

theorem decode_eq_ok {P : Platform} {db : Db} {user : KulloAddress} {msg : DecryptedMessage} {decoder : Decoder} :
    decode P db user msg = .ok decoder ↔
      ∃ dateReceived parsed flags, P.printDateTime msg.dateReceived = .ok dateReceived ∧
        parseContent P db user msg.id msg.content = .ok parsed ∧
        verifyContent P db parsed.sender.address msg.content = .ok () ∧
        parseMeta P user parsed.sender.address msg.metaVersion msg.metaText = .ok flags ∧
        decoder =
          { message := { row := messageRow msg dateReceived parsed flags.1 flags.2.1 flags.2.2 }
            sender := parsed.sender
            avatar := parsed.avatar
            participantAddresses := parsed.participantAddresses
            attachments := parsed.attachments } := by
  unfold decode converting
  constructor
  · intro h
    obtain ⟨dateReceived, hdate, h⟩ := bind_eq_ok.mp h
    rw [fwdNested_eq_ok] at h
    obtain ⟨parsed, hparsed, h⟩ := bind_eq_ok.mp h
    obtain ⟨_, hverify, h⟩ := bind_eq_ok.mp h
    obtain ⟨flags, hflags, h⟩ := bind_eq_ok.mp h
    cases h
    exact ⟨dateReceived, parsed, flags, hdate, hparsed, hverify, hflags, rfl⟩
  · rintro ⟨dateReceived, parsed, flags, hdate, hparsed, hverify, hflags, rfl⟩
    rw [hdate, ok_bind, hparsed, ok_bind, hverify, ok_bind, hflags, ok_bind, fwdNested_ok]

/-- The sender's address as far as decoding got, for a decoder whose signature key is missing. -/
def senderAddress (db : Db) (userAddress : KulloAddress) (msg : DecryptedMessage) : Option KulloAddress :=
  match P.printDateTime msg.dateReceived with
  | .ok _ => ((parseContent P db userAddress msg.id msg.content).toOption).map (fun parsed => parsed.sender.address)
  | .error _ => none

/-- `makeConversation`. -/
def makeConversation (db : Db) (decoder : Decoder) : ConversationDao := conversationFor db decoder.participantAddresses

end MessageDecoder

end KulloClient
