import KulloClient.Dao.Attachment
import KulloClient.Dao.Conversation
import KulloClient.Dao.Delivery
import KulloClient.Dao.Draft
import KulloClient.Util.Platform

/-!
# Encoding, compressing and encrypting a message

`MessageEncoder`, `MessageCompressor` and `MessageEncryptor`, from a row of `messages` or `drafts` to what the server
gets.  `encodeParts` is the common part of the two encoders.
-/

namespace KulloClient

/-- `LATEST_META_VERSION`. -/
def latestMetaVersion : MetaVersion := 1

/-- An encoded but unencrypted message. -/
structure EncodedMessage where
  content : Bytes := []
  attachments : Bytes := []
  deriving DecidableEq

/-- `Protocol::SendableMessage`. -/
structure SendableMessage where
  keySafe : Bytes
  content : Bytes
  attachments : Bytes
  deriving DecidableEq

namespace MessageEncoder

variable (P : Platform)

/-- `encodeSender`. -/
def encodeSender (sender : SenderDao) (avatar : Bytes) : Json :=
  let avatarJson : List (String × Json) :=
    if sender.avatarMimeType.isEmpty || avatar.isEmpty then []
    else [("data", .string (P.base64Encode avatar)), ("mimeType", .string sender.avatarMimeType)]
  .object [("address", .string sender.address.toString), ("avatar", .object avatarJson),
    ("name", .string sender.name), ("organization", .string sender.organization)]

/-- One element of the attachments index; the size is cut to an `unsigned int`. -/
def attachmentIndexElement (dao : AttachmentDao) : Json :=
  .object [("filename", .string dao.row.filename), ("hash", .string dao.row.hash),
    ("mimeType", .string dao.row.mimeType), ("note", .string dao.row.note),
    ("size", .int ((dao.row.size % 2 ^ 32 : Nat) : Int))]

/-- `encodeAttachments`: the concatenated contents and the index. -/
def encodeAttachments (db : Db) : List AttachmentDao → Except Exn (Bytes × List Json)
  | [] => .ok ([], [])
  | dao :: daos => do
    let content ← dao.content db
    if dao.row.size ≠ content.length then
      .error (.databaseIntegrityError "MessageEncoder: attachment sizes don't match")
    else do
      let (data, index) ← encodeAttachments db daos
      .ok (content ++ data, attachmentIndexElement dao :: index)

/-- The private `encodeMessage`. -/
def encodeParts (db : Db) (conversationId : IdType) (sender : SenderDao) (avatar : Bytes)
    (dateSent text footer : String) (attachments : List AttachmentDao) : Except Exn EncodedMessage := do
  match ConversationDao.load db conversationId with
  | none =>
    .error (.databaseIntegrityError "MessageEncoder::MessageEncoder(): couldn't find conversation for draft")
  | some conv => do
    let (data, index) ← encodeAttachments db attachments
    let messageContentJson : Json := .object [("attachmentsIndex", .array index), ("dateSent", .string dateSent),
      ("footer", .string footer), ("recipients", .array (conv.participantsList.map .string)),
      ("sender", encodeSender P sender avatar), ("text", .string text)]
    .ok ⟨P.writeJson messageContentJson, data⟩

/-- `encodeMessage(messageDao, session)`. -/
def encodeMessage (db : Db) (messageDao : MessageDao) : Except Exn EncodedMessage := do
  match ← SenderDao.load db messageDao.row.id with
  | none =>
    .error (.databaseIntegrityError "MessageEncoder::encodeMessage(): couldn't find sender for message")
  | some sender => do
    let avatar ← match sender.avatarHash with
      | some hash => AvatarDao.load db hash
      | none => .ok []
    encodeParts P db messageDao.row.conversationId sender avatar messageDao.row.dateSent messageDao.row.text
      messageDao.row.footer (AttachmentDao.allForMessage db false messageDao.row.id)

/-- `encodeMessage(credentials, draft, dateSent, session)`, for the address of the credentials. -/
def encodeDraft (db : Db) (address : KulloAddress) (draft : DraftDao) (dateSent : String) :
    Except Exn EncodedMessage :=
  let sender := (SenderDao.new address).setName draft.row.senderName
  let sender := (sender.setOrganization draft.row.senderOrganization).setAvatarMimeType draft.row.senderAvatarMimeType
  encodeParts P db draft.row.conversationId sender draft.row.senderAvatar dateSent draft.row.text draft.row.footer
    (AttachmentDao.allForMessage db true draft.row.conversationId)

/-- `encodeMeta`: read and done as numbers; the delivery is not synchronized. -/
def encodeMeta (read done : Bool) : Bytes :=
  P.writeJson (.object [("done", .int (if done then 1 else 0)), ("read", .int (if read then 1 else 0))])

end MessageEncoder

namespace MessageCompressor

variable (P : Platform)

def compressContent (msg : EncodedMessage) : Except Exn EncodedMessage := do
  let content ← P.gzip msg.content
  .ok { msg with content := content }

def compressAttachments (msg : EncodedMessage) : Except Exn EncodedMessage :=
  if msg.attachments.isEmpty then .ok msg
  else do
    let attachments ← P.gzip msg.attachments
    .ok { msg with attachments := attachments }

/-- `MessageCompressor::compress`, which changes the message in two steps. -/
def compress (msg : EncodedMessage) : Except Exn EncodedMessage := do
  let msg ← compressContent P msg
  compressAttachments P msg

def decompress (content : Bytes) : Except Exn Bytes :=
  match P.gunzip content with
  | .ok data => .ok data
  | .error message => .error (.gzipStreamError message)

end MessageCompressor

namespace SymmetricCryptor

def contentIV : Bytes := toBytes "content"

def attachmentsIV : Bytes := toBytes "attachments"

def randomIVBytes : Nat := 16

/-- `crypt` for encryption: empty input stays empty. -/
def encrypt (P : Platform) (plaintext key iv : Bytes) : Bytes :=
  if plaintext.isEmpty then [] else P.gcmEncrypt key iv plaintext

/-- `crypt` for decryption. -/
def decrypt (P : Platform) (ciphertext key iv : Bytes) : Except Exn Bytes :=
  if ciphertext.isEmpty then .ok []
  else
    match P.gcmDecrypt key iv ciphertext with
    | .ok plaintext => .ok plaintext
    | .error .integrityFailure => .error (.integrityFailure "SymmetricCryptor::crypt")
    | .error (.other message) => .error (.botanException message)

/-- The overload that finds the IV in front of the ciphertext. -/
def decryptWithIV (P : Platform) (ivAndCiphertext key : Bytes) (ivLength : Nat) : Except Exn Bytes := do
  kulloAssert (ivLength ≤ ivAndCiphertext.length) "ivAndCiphertext.size() >= ivLength"
  decrypt P (ivAndCiphertext.drop ivLength) key (ivAndCiphertext.take ivLength)

end SymmetricCryptor

namespace MessageEncryptor

variable (P : Platform)

/-- The random values one call of `makeSendableMessage` draws. -/
structure Randomness where
  symmKey : Bytes
  padding : Bytes
  deriving DecidableEq

/-- `makeKeySafe`. -/
def makeKeySafe (random : Randomness) (encKeyId : IdType) (encKey : P.PublicKey) : Bytes :=
  let keySafeJson : Json := .object [("hashAlgo", .string "SHA-512"), ("msgFormat", .int 1),
    ("symmCipher", .string "AES-256/GCM"), ("symmKey", .string (P.base64Encode random.symmKey))]
  writeUint32 encKeyId ++ P.asymmEncrypt random.padding (P.writeJson keySafeJson) encKey

/-- `encryptContent`: the signature key's id, the signature with its length, and the content. -/
def encryptContent (symmKey content : Bytes) (sigKeyId : IdType) (sigKeyPair : P.PrivateKey) : Bytes :=
  let sig := P.sign content sigKeyPair
  SymmetricCryptor.encrypt P (writeUint32 sigKeyId ++ writeUint32 sig.length ++ sig ++ content) symmKey
    SymmetricCryptor.contentIV

/-- `makeSendableMessage`. -/
def makeSendableMessage (random : Randomness) (encodedMsg : EncodedMessage) (encKeyId : IdType) (encKey : P.PublicKey)
    (sigKeyId : IdType) (sigKeyPair : P.PrivateKey) : SendableMessage where
  keySafe := makeKeySafe P random encKeyId encKey
  content := encryptContent P random.symmKey encodedMsg.content sigKeyId sigKeyPair
  attachments := SymmetricCryptor.encrypt P encodedMsg.attachments random.symmKey SymmetricCryptor.attachmentsIV

/-- `encryptMeta`: the version, the random IV and the ciphertext. -/
def encryptMeta (iv plaintext key : Bytes) : Except Exn Bytes := do
  let ciphertext := writeUint32 1 ++ (iv ++ SymmetricCryptor.encrypt P plaintext key iv)
  kulloAssert (ciphertext.length ≤ messageMetaMaxBytes) "ciphertext.size() <= MESSAGE_META_MAX_BYTES"
  .ok ciphertext

end MessageEncryptor

end KulloClient
