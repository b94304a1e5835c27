import KulloClient.Codec.MessageDecoder
import KulloClient.Dao.Sync

/-!
# MessagesSyncer

Downloading new versions of the messages and uploading local modifications.  The transactions are functions from
`Db` to `Except`, so that a transaction that raises leaves no trace; `SyncM` puts them together, with the events
that are emitted between them.  What the server answers and when the run is cancelled are inputs.
-/

namespace KulloClient

/-- `SyncIncomingMessagesProgress`. -/
structure IncomingProgress where
  processedMessages : Nat := 0
  totalMessages : Nat := 0
  newMessages : Nat := 0
  newUnreadMessages : Nat := 0
  modifiedMessages : Nat := 0
  deletedMessages : Nat := 0
  deriving DecidableEq

/-- `Protocol::IdLastModified`. -/
structure IdLastModified where
  id : IdType
  lastModified : LastModified
  deriving DecidableEq

namespace MessagesSyncer

inductive Event
  | messageAdded (conversationId id : IdType)
  | messageModified (conversationId id : IdType)
  | messageDeleted (conversationId id : IdType)
  | senderAdded (conversationId messageId : IdType)
  | conversationAdded (conversationId : IdType)
  | conversationModified (conversationId : IdType)
  | progressed (progress : IncomingProgress)
  deriving DecidableEq

structure State where
  db : Db
  progress : IncomingProgress := {}
  events : List Event := []

abbrev SyncM := EStateM Exn State

def emit (es : List Event) : SyncM Unit :=
  modify fun s => { s with events := s.events ++ es }

/-- A transaction: the database changes only if nothing is raised. -/
def transaction {α : Type} (body : Db → Except Exn (α × Db)) : SyncM α := do
  let s ← get
  match body s.db with
  | .ok (a, db) => do
    set { s with db := db }
    pure a
  | .error e => throw e

theorem transaction_of_ok {α : Type} {body : Db → Except Exn (α × Db)} {s : State} {a : α} {db : Db}
    (h : body s.db = .ok (a, db)) : transaction body s = .ok a { s with db := db } := by
  unfold transaction
  rw [Imperative.bind_of_ok Imperative.get_apply, h]
  rfl

theorem transaction_of_error {α : Type} {body : Db → Except Exn (α × Db)} {s : State} {e : Exn}
    (h : body s.db = .error e) : transaction body s = .error e s := by
  unfold transaction
  rw [Imperative.bind_of_ok Imperative.get_apply, h]
  rfl

/-! ### The transactions -/

def newTombstone (httpMsg : HttpMessage) (db : Db) : Except Exn Db := do
  let tombstone := MessageDao.new httpMsg.id
  let tombstone := (tombstone.setLastModified httpMsg.lastModified).2
  let tombstone := (tombstone.setDeleted true).2
  let (_, _, db) ← tombstone.save .no db
  .ok db

/-- What `MessageAdder` remembers for the events. -/
structure Added where
  convId : IdType
  newConversation : Bool
  msg : MessageRow

section

variable (P : Platform)

/-- `MessageAdder::addMessage`. -/
def addMessage (decoder : Decoder) (conversation : ConversationDao) (db : Db) : Except Exn (Added × MessageDao × Db) := do
  let (newConversation, conversation, db) ← conversation.save db
  let message := (decoder.message.setConversationId conversation.id).2
  let avatarHash := P.eightByteHash decoder.avatar
  let db := AvatarDao.store db avatarHash decoder.avatar
  let db ← (decoder.sender.setAvatarHash (some avatarHash)).save db
  let (_, message, db) ← message.save .no db
  let db ← decoder.attachments.foldlM (fun db att => att.save db) db
  .ok (⟨conversation.id, newConversation, message.row⟩, message, db)

/-- The transaction of `handleNewMessage`: the message is added, and an old meta format is upgraded. -/
def addNewMessage (decoder : Decoder) (db : Db) : Except Exn (Added × Db) := do
  let (added, remote, db) ← addMessage P decoder (MessageDecoder.makeConversation db decoder) db
  if remote.row.metaVersion < latestMetaVersion then do
    let (_, remote, db) ← (remote.setMetaVersion latestMetaVersion).2.save .yes db
    .ok ({ added with msg := remote.row }, db)
  else .ok (added, db)

end

/-- The transaction of `handleDeletedMessage`; a remote deletion overrides all local changes. -/
def clearLocal (httpMsg : HttpMessage) (loc : MessageDao) (db : Db) : Except Exn Db := do
  let db := AttachmentDao.deleteAttachments db false loc.row.id
  let db := match ← SenderDao.load db loc.row.id with
    | some sender => sender.deletePermanently db
    | none => db
  let db ← loc.dropOld db
  let loc := (loc.clearData.setLastModified httpMsg.lastModified).2
  let (_, _, db) ← (loc.setDeleted true).2.save .no db
  .ok db

/-- One state of the merge: the remote value is taken if it was changed only on the server. -/
def mergeState (old loc remote : MessageDao) (s : MessageState) : Bool × MessageDao :=
  if loc.row.state s ≠ remote.row.state s ∧ old.row.state s = loc.row.state s then loc.setState s (remote.row.state s)
  else (false, loc)

/-- The merged local dao, and whether one of its states changed. -/
def mergeStates (old loc remote : MessageDao) : Bool × MessageDao :=
  if loc.row.deleted then (false, loc)
  else
    let (readModified, loc) := mergeState old loc remote .read
    let (doneModified, loc) := mergeState old loc remote .done
    (doneModified || readModified, loc)

/-- What `handleModifiedMessage` remembers for the events. -/
structure Merged where
  msg : MessageRow
  localModified : Bool
  stateModified : Bool

/-- The transaction of `handleModifiedMessage`. -/
def merge (remote loc : MessageDao) (db : Db) : Except Exn (Merged × Db) := do
  let loc := (loc.setLastModified remote.row.lastModified).2
  let (stateModified, loc, db) ← match MessageDao.load db remote.row.id true with
    -- nothing was changed here, so the states of the server are taken
    | none =>
      let (readModified, loc) := loc.setState .read (remote.row.state .read)
      let (doneModified, loc) := loc.setState .done (remote.row.state .done)
      .ok (doneModified || readModified, loc, db)
    | some old => do
      let (stateModified, loc) := mergeStates old loc remote
      -- both sides are the same now
      if loc.equals old then .ok (stateModified, loc, ← loc.dropOld db)
      else do
        -- the old row goes on as what the server has
        let old := (old.setLastModified remote.row.lastModified).2
        let old := (old.setDeleted remote.row.deleted).2
        let old := (old.setState .read (remote.row.state .read)).2
        let old := (old.setState .done (remote.row.state .done)).2
        let (_, _, db) ← old.save .no db
        .ok (stateModified, loc, db)
  let (localModified, loc, db) ← loc.save .no db
  .ok (⟨loc.row, localModified, stateModified⟩, db)

/-- The transaction of `handleSuccessfulModification`. -/
def applyModification (idlm : IdLastModified) (db : Db) : Except Exn (MessageRow × Db) := do
  match MessageDao.load db idlm.id false with
  | none =>
    .error (.databaseIntegrityError "MessagesSyncer::handleSuccessfulModification() Couldn't load modified message.")
  | some msg => do
    let (_, msg, db) ← (msg.setLastModified idlm.lastModified).2.save .no db
    .ok (msg.row, ← msg.dropOld db)

/-! ### Downloading -/

/-- The account: the user's address and the key of the meta data. -/
structure Account where
  userAddress : KulloAddress
  privateDataKey : Bytes

/-- An answer of the key server, a `Protocol::KeyPair`: the id, the type and the bytes of a key. -/
structure PublicKeyAnswer where
  id : IdType
  type : String
  pubkey : Bytes
  deriving DecidableEq

/-- A message of a page: whether the run is cancelled before it, and the answers to its key downloads, in turn. -/
structure Received where
  msg : HttpMessage
  cancelled : Bool := false
  answers : List (Except Exn PublicKeyAnswer) := []

/-- `GetMessagesResult`. -/
structure Page where
  messages : List Received
  countReturned : Nat
  countLeft : Nat

section

variable (P : Platform) (account : Account)

def tryDecrypt (httpMsg : HttpMessage) : SyncM (Option DecryptedMessage) := do
  match MessageDecryptor.decrypt P (← get).db account.privateDataKey httpMsg with
  | .ok decryptedMessage => pure (some decryptedMessage)
  | .error .decryptionKeyMissing => pure none
  | .error e => throw e

/-- The row `downloadPublicKey` saves; a key that is already stored is not stored again. -/
def storePublicKey (address : KulloAddress) (answer : PublicKeyAnswer) (db : Db) : Except Exn Db :=
  match PublicKeyDao.load db address .signature answer.id with
  | some _ => .ok db
  | none => do
    let keysPublic ← insertRow db.keysPublic ⟨address.toString, .signature, answer.id, answer.pubkey⟩
    .ok { db with keysPublic := keysPublic }

/-- The exceptions of `decode` after which the message is skipped. -/
def isSkipped : Exn → Bool
  | .decryptionKeyMissing => true
  | .unsupportedContentVersion _ => true
  | .invalidContentFormat _ => true
  | .signatureVerificationFailed => true
  | _ => false

/-- `tryDecode`, with the answers of the key server to come.  Nothing has been written when the transaction is rolled
back for a key download, and none is open while the key is stored. -/
def tryDecode (decryptedMessage : DecryptedMessage) : List (Except Exn PublicKeyAnswer) → SyncM (Option Decoder)
  | [] => do
    match MessageDecoder.decode P (← get).db account.userAddress decryptedMessage with
    | .ok decoder => pure (some decoder)
    | .error .signatureVerificationKeyMissing => throw .networkError
    | .error e => if isSkipped e then pure none else throw e
  | answer :: answers => do
    let db := (← get).db
    match MessageDecoder.decode P db account.userAddress decryptedMessage with
    | .ok decoder => pure (some decoder)
    | .error .signatureVerificationKeyMissing =>
      match answer, MessageDecoder.senderAddress P db account.userAddress decryptedMessage with
      | .ok keyPair, some address => do
        transaction (fun db => do .ok ((), ← storePublicKey address keyPair db))
        tryDecode decryptedMessage answers
      -- the server does not know the key, and the message is skipped
      | .error .notFound, _ => pure none
      | .error e, _ => throw e
      | _, none => throw (.assertionFailed "contentDecoded_")
    | .error e => if isSkipped e then pure none else throw e

def handleNewTombstone (httpMsg : HttpMessage) : SyncM Unit :=
  transaction (fun db => do .ok ((), ← newTombstone httpMsg db))

/-- The first steps of `handleNewMessage` and `handleModifiedMessage`, and what they do with the decoder. -/
def withDecoder (r : Received) (body : Decoder → SyncM Unit) : SyncM Unit := do
  match ← tryDecrypt P account r.msg with
  | none => pure ()
  | some decryptedMessage =>
    match ← tryDecode P account decryptedMessage r.answers with
    | none => pure ()
    | some decoder => body decoder

def handleNewMessage (r : Received) : SyncM Unit :=
  withDecoder P account r fun decoder => do
    let added ← transaction (addNewMessage P decoder)
    modify fun s =>
      { s with
        progress :=
          { s.progress with
            newMessages := s.progress.newMessages + 1
            newUnreadMessages := s.progress.newUnreadMessages + if added.msg.read then 0 else 1 } }
    emit [.senderAdded added.convId added.msg.id, .messageAdded added.convId added.msg.id,
      if added.newConversation then .conversationAdded added.convId else .conversationModified added.convId]

def handleDeletedMessage (httpMsg : HttpMessage) (loc : MessageDao) : SyncM Unit := do
  transaction (fun db => do .ok ((), ← clearLocal httpMsg loc db))
  modify fun s => { s with progress := { s.progress with deletedMessages := s.progress.deletedMessages + 1 } }
  emit [.messageDeleted loc.row.conversationId loc.row.id]

def handleModifiedMessage (r : Received) (loc : MessageDao) : SyncM Unit :=
  withDecoder P account r fun decoder => do
    let merged ← transaction (merge decoder.message loc)
    if merged.localModified then do
      modify fun s => { s with progress := { s.progress with modifiedMessages := s.progress.modifiedMessages + 1 } }
      emit [.messageModified merged.msg.conversationId merged.msg.id]
    if merged.stateModified then emit [.conversationModified merged.msg.conversationId]

/-- The four cases of a received message, whose local version has been loaded. -/
def handleLoaded (r : Received) (loc : Option MessageDao) : SyncM Unit :=
  match loc, r.msg.deleted with
  | none, true => handleNewTombstone r.msg
  | none, false => handleNewMessage P account r
  | some loc, true => handleDeletedMessage r.msg loc
  | some loc, false => handleModifiedMessage P account r loc

def handle (r : Received) : SyncM Unit := do
  handleLoaded P account r (MessageDao.load (← get).db r.msg.id false)

/-- The end of the loop's body. -/
def advance (r : Received) : SyncM Unit := do
  modify fun s =>
    { s with progress := { s.progress with processedMessages := s.progress.processedMessages + 1 } }
  emit [.progressed (← get).progress]
  modify fun s => { s with db := SyncDao.setTimestamp s.db .message r.msg.lastModified }

/-- The body of the loop over a page. -/
def process (r : Received) : SyncM Unit := do
  if r.cancelled then throw .syncCanceled
  handle P account r
  advance r

/-- What is left of the loop's body when the local version has been loaded. -/
def processLoaded (r : Received) (loc : Option MessageDao) : SyncM Unit := do
  handleLoaded P account r loc
  advance r

def processPage : List Received → SyncM Unit
  | [] => pure ()
  | r :: rs => do
    process P account r
    processPage rs

/-- `downloadAndProcessMessages`, for the answers the server gives in turn to a request with the last timestamp. -/
def downloadAndProcessMessages : List (LastModified → Except Exn Page) → SyncM Unit
  | [] => throw .networkError
  | answer :: answers => do
    match answer (SyncDao.timestamp (← get).db .message) with
    | .error e => throw e
    | .ok page => do
      modify fun s =>
        { s with progress := { s.progress with totalMessages := page.countLeft + s.progress.processedMessages } }
      emit [.progressed (← get).progress]
      processPage P account page.messages
      if page.countReturned < page.countLeft then downloadAndProcessMessages answers

end

/-! ### Uploading -/

inductive UploadRequest
  | deleteMessage (idlm : IdLastModified)
  | modifyMeta (idlm : IdLastModified) (metaData : Bytes)
  deriving DecidableEq

/-- What one id of `locallyModifiedMessages` meets: the flag, the random IV and the server's answer. -/
structure Upload where
  cancelled : Bool := false
  iv : Bytes
  answer : UploadRequest → Except Exn IdLastModified

section

variable (P : Platform) (account : Account)

/-- The request for a modified message, if there is a difference to the last synchronized state. -/
def uploadRequest (iv : Bytes) (id : IdType) (db : Db) : Except Exn (Option UploadRequest) := do
  match MessageDao.load db id false, MessageDao.load db id true with
  | none, _ =>
    .error (.databaseIntegrityError "MessagesSyncer::processNextModification(): Couldn't load enqueued message.")
  | some _, none => .ok none
  | some loc, some old =>
    if loc.equals old then .ok none
    else
      let idlm : IdLastModified := ⟨old.row.id, old.row.lastModified⟩
      if loc.row.deleted then .ok (some (.deleteMessage idlm))
      else do
        let metaData ← MessageEncryptor.encryptMeta P iv (MessageEncoder.encodeMeta P loc.row.read loc.row.done)
          account.privateDataKey
        .ok (some (.modifyMeta idlm metaData))

def handleSuccessfulModification (idlm : IdLastModified) : SyncM Unit := do
  let msg ← transaction (applyModification idlm)
  if !msg.deleted then emit [.messageModified msg.conversationId msg.id]

def uploadModification (u : Upload) (id : IdType) : SyncM Unit := do
  if u.cancelled then throw .syncCanceled
  match uploadRequest P account u.iv id (← get).db with
  | .error e => throw e
  | .ok none => pure ()
  | .ok (some request) =>
    match u.answer request with
    | .ok idlm => handleSuccessfulModification idlm
    | .error .conflict => pure ()
    | .error e => throw e

def uploadEach (us : Nat → Upload) : List IdType → Nat → SyncM Unit
  | [], _ => pure ()
  | id :: ids, i => do
    uploadModification P account (us i) id
    uploadEach us ids (i + 1)

def uploadModifications (us : Nat → Upload) : SyncM Unit := do
  uploadEach P account us (MessageDao.locallyModifiedMessages (← get).db latestMetaVersion) 0

def run (answers : List (LastModified → Except Exn Page)) (us : Nat → Upload) : SyncM Unit := do
  downloadAndProcessMessages P account answers
  uploadModifications P account us

end

end MessagesSyncer

end KulloClient
