import KulloClient.Codec.MessageRoundTrip
import KulloClient.Dao.SizeEstimates
import KulloClient.Sync.MessagesSyncer
import KulloClient.Sync.OutgoingProgress

/-!
# MessagesUploader

The loop that uploads the drafts in state sending and turns each into a message.  As in `MessagesSender`, what an
iteration meets is an input: the cancellation flag at each check, the exception each call ends with and the server's
answer.  A run stops with an exception, or where it dereferences a pointer that is null.
-/

namespace KulloClient

/-- `Protocol::MessageSent`, with the text the received date prints as. -/
structure MessageSent where
  id : IdType
  lastModified : LastModified
  dateReceived : String
  deriving DecidableEq

/-- `Api::DraftPart`. -/
inductive DraftPart
  | content
  | attachments
  deriving DecidableEq

namespace MessagesUploader

/-- The places where an iteration looks at `shouldCancel`. -/
inductive Check
  | start
  | afterLoad
  | afterEncode
  | afterCompress
  | beforeMeta
  | beforeSend
  | afterSend
  deriving DecidableEq

/-- The calls of an iteration that may raise an exception of their own; `handler` and `store` are transactions. -/
inductive Call
  | firstSendable
  | sizeOfAllSendable
  | loadConversation
  | encodeMessage
  | compress
  | getLatestKeyAndId
  | makeSendableMessage
  | saveTooBig
  | makeDelivery
  | loadKey
  | handler
  | store
  | clearDraft
  deriving DecidableEq

/-- What one iteration meets. -/
structure Iteration (P : Platform) where
  cancelled : Check → Bool := fun _ => false
  throws : Call → Option Exn := fun _ => none
  dateSent : String
  encKeyId : IdType
  encKey : P.PublicKey
  sigKeyId : IdType
  sigKey : P.PrivateKey
  random : MessageEncryptor.Randomness
  iv : Bytes
  /-- Whether the server stores the message, and how the request ends. -/
  accepted : Bool
  answer : Except Exn MessageSent
  transfers : List TransferProgress := []
  /-- `MessageSent::size`, which is the size of the request's body. -/
  requestBodySize : Nat := 0

/-- Why a run stops before its end. -/
inductive Stop
  | exception (e : Exn)
  | nullDereference
  deriving DecidableEq

/-- The events of an iteration, and the requests to the server. -/
inductive Event
  | draftModified (conversationId : IdType)
  | draftAttachmentDeleted (conversationId index : IdType)
  | draftPartTooBig (conversationId : IdType) (part : DraftPart) (size maxSize : Nat)
  | senderAdded (conversationId messageId : IdType)
  | messageAdded (conversationId messageId : IdType)
  | conversationAdded (conversationId : IdType)
  | conversationModified (conversationId : IdType)
  | messageAttachmentsDownloaded (conversationId messageId : IdType)
  | sendMessageToSelf (conversationId : IdType) (msg : SendableMessage) (metaData : Bytes) (accepted : Bool)
  deriving DecidableEq

/-- The variables of `run` that its handlers see. -/
structure State where
  db : Db
  draft : DraftDao := .new
  conv : Option ConversationDao := none
  trace : List Event := []
  meter : Meter := {}

abbrev UploaderM := EStateM Stop State

def lift {α : Type} (result : Except Exn α) : UploaderM α :=
  match result with
  | .ok a => pure a
  | .error e => throw (.exception e)

def emit (es : List Event) : UploaderM Unit :=
  modify fun v => { v with trace := v.trace ++ es }

/-- The account of the user. -/
structure Account where
  address : KulloAddress
  privateDataKey : Bytes

def loadConversation (db : Db) (conversationId : IdType) : Except Exn ConversationDao :=
  match ConversationDao.load db conversationId with
  | some conv => .ok conv
  | none =>
    .error (.databaseIntegrityError "MessagesSender::sendNextMessage(): couldn't find conversation for draft")

/-- `makeDelivery`: the recipients of the unsent deliveries. -/
def makeDelivery (conv : ConversationDao) : Except Exn (List KulloAddress) :=
  conv.participantsList.mapM KulloAddress.ofString

/-- `makeMessageDao`. -/
def makeMessageDao (address : KulloAddress) (dateSent : String) (msgSent : MessageSent) (draft : DraftDao) :
    MessageDao :=
  let message := MessageDao.new msgSent.id
  let message := (message.setLastModified msgSent.lastModified).2
  let message := (message.setDateReceived msgSent.dateReceived).2
  let message := (message.setConversationId draft.row.conversationId).2
  let message := (message.setSender address.toString).2
  let message := (message.setDateSent dateSent).2
  let message := (message.setText draft.row.text).2
  let message := (message.setFooter draft.row.footer).2
  let message := (message.setState .read true).2
  (message.setState .done true).2

/-- `makeSender`. -/
def makeSender (P : Platform) (address : KulloAddress) (messageId : IdType) (draft : DraftDao) : SenderDao :=
  let sender := (SenderDao.new address).setMessageId messageId
  let sender := (sender.setName draft.row.senderName).setOrganization draft.row.senderOrganization
  let sender := sender.setAvatarHash (some (P.eightByteHash draft.row.senderAvatar))
  sender.setAvatarMimeType draft.row.senderAvatarMimeType

/-- An attachment dao after `convertToMessageAttachment`. -/
def converted (msgId : IdType) (d : AttachmentDao) : AttachmentDao :=
  { d with row := { d.row with draft := false, messageId := msgId } }

/-- The transaction that stores the message: the attachments of the draft become the message's, and the message is
added with its sender and its deliveries. -/
def store (P : Platform) (address : KulloAddress) (dateSent : String) (draft : DraftDao) (conv : ConversationDao)
    (msgSent : MessageSent) (delivery : List KulloAddress) (db : Db) :
    Except Exn (MessagesSyncer.Added × List AttachmentDao × Db) := do
  let draftAttachments := AttachmentDao.allForMessage db true draft.row.conversationId
  let db ← draftAttachments.foldlM (fun db d => d.convertToMessageAttachment msgSent.id db) db
  let messageAttachments := draftAttachments.map (converted msgSent.id)
  let message := makeMessageDao address dateSent msgSent draft
  let decoder : Decoder :=
    ⟨message, makeSender P address message.row.id draft, draft.row.senderAvatar, [], messageAttachments⟩
  let (added, _, db) ← MessagesSyncer.addMessage P decoder conv db
  .ok (added, messageAttachments, DeliveryDao.insertUnsent db msgSent.id delivery)

section

variable (P : Platform) (account : Account) (it : Iteration P)

namespace Iteration

variable {P}

def check (c : Check) : Except Exn Unit :=
  if it.cancelled c then .error .syncCanceled else .ok ()

def call {α : Type} (c : Call) (result : Except Exn α) : Except Exn α :=
  match it.throws c with
  | some e => .error e
  | none => result

/-- `totalSize`: what the current message is in the estimate. -/
def totalSize (db : Db) (draft : DraftDao) : Nat :=
  match MessageEncoder.encodeDraft P db account.address draft it.dateSent with
  | .ok encodedMessage => perMessageOverhead + draft.row.text.utf8ByteSize + encodedMessage.attachments.length
  | .error _ => 0

/-- The encoded and compressed draft. -/
def encode (db : Db) (draft : DraftDao) : Except Exn EncodedMessage := do
  it.check .afterLoad
  let encodedMessage ← it.call .encodeMessage (MessageEncoder.encodeDraft P db account.address draft it.dateSent)
  it.check .afterEncode
  let encodedMessage ← it.call .compress (MessageCompressor.compress P encodedMessage)
  it.check .afterCompress
  .ok encodedMessage

/-- `makeSendableMessage`, with the assertion on the key safe. -/
def makeSendableMessage (encodedMessage : EncodedMessage) : Except Exn SendableMessage := do
  it.call .getLatestKeyAndId (.ok ())
  let sendableMsg ← it.call .makeSendableMessage
    (.ok (MessageEncryptor.makeSendableMessage P it.random encodedMessage it.encKeyId it.encKey it.sigKeyId it.sigKey))
  kulloAssert (sendableMsg.keySafe.length ≤ messageKeySafeMaxBytes)
    "sendableMsg.keySafe.size() <= MESSAGE_KEY_SAFE_MAX_BYTES"
  .ok sendableMsg

/-- The deliveries and the encrypted meta data. -/
def prepareMeta (conv : ConversationDao) : Except Exn (List KulloAddress × Bytes) := do
  it.check .beforeMeta
  let delivery ← it.call .makeDelivery (makeDelivery conv)
  it.call .loadKey (.ok ())
  let metaData ← MessageEncryptor.encryptMeta P it.iv (MessageEncoder.encodeMeta P true true) account.privateDataKey
  it.check .beforeSend
  .ok (delivery, metaData)

end Iteration

/-- `resetDraftToEditing`, on a given database. -/
def resetDraftToEditing (call : Call) (db : Db) : UploaderM Unit := do
  modify fun v => { v with draft := v.draft.setState .editing }
  let v ← get
  let (draft, db) ← lift (it.call call (v.draft.save db))
  modify fun v => { v with draft := draft, db := db }

/-- The part of a message that is too large, its size and the limit. -/
def tooBig (sendableMsg : SendableMessage) : Option (DraftPart × Nat × Nat) :=
  if messageContentMaxBytes < sendableMsg.content.length then
    some (.content, sendableMsg.content.length, messageContentMaxBytes)
  else if messageAttachmentsMaxBytes < sendableMsg.attachments.length then
    some (.attachments, sendableMsg.attachments.length, messageAttachmentsMaxBytes)
  else none

/-- `ensureSizeLimitCompliance`. -/
def ensureSizeLimitCompliance (sendableMsg : SendableMessage) : UploaderM Bool := do
  match tooBig sendableMsg with
  | none => pure true
  | some (part, size, maxSize) => do
    resetDraftToEditing P it .saveTooBig (← get).db
    let convId := (← get).draft.row.conversationId
    emit [.draftModified convId, .draftPartTooBig convId part size maxSize]
    pure false

/-- The try block of an iteration, for a conversation that was loaded; `none` is `continue`. -/
def upload (conv : ConversationDao) : UploaderM (Option (ConversationDao × MessageSent × List KulloAddress)) := do
  let v ← get
  let encodedMessage ← lift (it.encode account v.db v.draft)
  let sendableMsg ← lift (it.makeSendableMessage encodedMessage)
  if ← ensureSizeLimitCompliance P it sendableMsg then do
    let (delivery, metaData) ← lift (it.prepareMeta account conv)
    emit [.sendMessageToSelf v.draft.row.conversationId sendableMsg metaData it.accepted]
    modify fun w => { w with meter := w.meter.transfers (it.totalSize account v.db v.draft) it.transfers }
    let msgSent ← lift it.answer
    pure (some (conv, msgSent, delivery))
  else pure none

/-- The try block of an iteration. -/
def attempt : UploaderM (Option (ConversationDao × MessageSent × List KulloAddress)) := do
  let v ← get
  let conv ← lift (it.call .loadConversation (loadConversation v.db v.draft.row.conversationId))
  modify fun v => { v with conv := some conv }
  upload P account it conv

/-- `deleteAttachmentsForDraft`: the indexes it returns. -/
def deletedIndexes (db : Db) (conversationId : IdType) : List IdType :=
  (AttachmentDao.allForMessage db true conversationId).map (fun d => d.row.index)

/-- The handler for `std::exception`; `conv` is null if the conversation was not loaded. -/
def handleFailed : UploaderM Unit := do
  let v ← get
  lift (it.call .handler (.ok ()))
  match v.conv with
  | none => throw .nullDereference
  | some conv => do
    resetDraftToEditing P it .handler (AttachmentDao.deleteAttachments v.db true conv.id)
    emit ((deletedIndexes v.db conv.id).map (Event.draftAttachmentDeleted conv.id))
    emit [.draftModified conv.id]

/-- `clearDraft`. -/
def clearDraft (attachments : List AttachmentDao) : UploaderM Unit := do
  let convId := (← get).draft.row.conversationId
  emit (attachments.map fun att => .draftAttachmentDeleted convId att.row.index)
  modify fun v => { v with draft := v.draft.clear }
  let v ← get
  let (draft, db) ← lift (it.call .clearDraft (v.draft.save v.db))
  modify fun v => { v with draft := draft, db := db }
  emit [.draftModified convId]

/-- What follows an upload: the message is stored and the draft is cleared. -/
def finish (conv : ConversationDao) (msgSent : MessageSent) (delivery : List KulloAddress) : UploaderM Unit := do
  let v ← get
  modify fun v => { v with meter := v.meter.finish it.requestBodySize }
  lift (it.check .afterSend)
  let (added, attachments, db) ← lift
    (it.call .store (store P account.address it.dateSent v.draft conv msgSent delivery v.db))
  modify fun v => { v with db := db }
  emit [.senderAdded added.convId added.msg.id, .messageAdded added.convId added.msg.id,
    if added.newConversation then .conversationAdded added.convId else .conversationModified added.convId,
    .messageAttachmentsDownloaded v.draft.row.conversationId msgSent.id]
  clearDraft P it attachments

/-- The handlers around the try block. -/
def handlers : Stop → UploaderM (Option (ConversationDao × MessageSent × List KulloAddress))
  | .exception .canceled => throw (.exception .syncCanceled)
  | .exception .syncCanceled => throw (.exception .syncCanceled)
  | .nullDereference => throw .nullDereference
  | .exception _ => do
    handleFailed P it
    pure none

/-- The iteration for a draft, after its try block. -/
def process (draft : DraftDao) : UploaderM Unit := do
  modify fun v => { v with draft := draft, conv := none }
  match ← tryCatch (attempt P account it) (handlers P it) with
  | none => pure ()
  | some (conv, msgSent, delivery) => finish P account it conv msgSent delivery

/-- The estimate of all that is to be sent. -/
def sizeOfAll (db : Db) : Nat :=
  toSize (DraftDao.sizeOfAllSendable P.bareRow db + MessageDao.sizeOfAllUndelivered P.bareRow db)

/-- One iteration of the loop: whether there is another one. -/
def iterate : UploaderM Bool := do
  match ← lift (it.call .firstSendable (.ok (DraftDao.firstSendable (← get).db))) with
  | none => pure false
  | some draft => do
    lift (it.check .start)
    let size ← lift (it.call .sizeOfAllSendable (.ok (sizeOfAll P (← get).db)))
    modify fun v => { v with meter := v.meter.start size }
    process P account it draft
    pure true

end

/-- `run`, for at most `fuel` iterations; `none` is a run that needs more. -/
def run (P : Platform) (account : Account) (its : Nat → Iteration P) :
    Nat → Nat → State → Option (EStateM.Result Stop State Unit)
  | _, 0, _ => none
  | i, fuel + 1, s =>
    match iterate P account (its i) s with
    | .ok true s' => run P account its (i + 1) fuel s'
    | .ok false s' => some (.ok () s')
    | .error e s' => some (.error e s')

end MessagesUploader

end KulloClient
