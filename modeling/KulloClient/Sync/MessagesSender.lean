import KulloClient.Codec.MessageEncoder
import KulloClient.Sync.OutgoingProgress

/-!
# MessagesSender

The loop that sends every unsent message to its recipients.  What an iteration meets is an input (`Iteration`): the
database as other threads left it, the cancellation flag at each check and, for each call below the loop, the exception
the call ends with.  The variables the loop carries from one iteration to the next are the `State`, together with
a record of the calls whose order matters.
-/

namespace KulloClient

namespace MessagesSender

/-- The places where an iteration looks at `shouldCancel`. -/
inductive Check
  | start
  | afterLoad
  | beforeGetPublicKey
  | beforeGetSignatureKey
  | beforeLoadPublicKey
  | beforeEncrypt
  | beforeSend
  deriving DecidableEq

/-- The calls of an iteration that may raise an exception; those of `EMIT` call the listener of an event. -/
inductive Call
  | sizeOfAllUndelivered
  | emitProgressed
  | load
  | remove
  | encodeMessage
  | compressContent
  | compressAttachments
  | getPublicKey
  | getLatestKeyAndId
  | loadPublicKey
  | makeSendableMessage
  | sendMessage
  | markAsDelivered
  | emitDelivered
  | markAsFailedInSend
  | emitFailedInSend
  | markAsFailed
  | emitFailed
  deriving DecidableEq

/-- What one iteration meets: the database it finds, the flag and the failures, and what its calls return. -/
structure Iteration (P : Platform) where
  db : Db
  cancelled : Check → Bool := fun _ => false
  throws : Call → Option Exn := fun _ => none
  encKeyId : IdType
  encPubkey : Bytes
  sigKeyId : IdType
  sigKey : P.PrivateKey
  random : MessageEncryptor.Randomness
  transfers : List TransferProgress := []
  uploadedBytes : Nat := 0
  nowUtc : Call → String := fun _ => ""

/-- A pair of `unsentMessages`. -/
abbrev IdAndRecipient := IdType × KulloAddress

/-- The calls that are recorded.  `prepared` is the end of compressing, with the database the message was read from;
`marked` is the end of a transaction that marked a delivery, with the table it left. -/
inductive Event
  | progressed (progress : ProgressSums)
  | prepared (db : Db) (msg : EncodedMessage)
  | sendMessage (recipient : KulloAddress) (msg : SendableMessage)
  | marked (delivery : List DeliveryRow)
  | messageModified (conversationId messageId : IdType)

/-- The variables of `run` and the members it changes. -/
structure State where
  db : Db := {}
  currentConversationId : IdType := 0
  currentMessageId : IdType := 0
  currentMessageEstimatedSize : Nat := 0
  encodedMessage : EncodedMessage := {}
  currentRecipient : Option KulloAddress := none
  previouslyUploaded : Nat := 0
  estimatedRemaining : Nat := 0
  progress : OutgoingProgress := {}
  /-- What happened, with the pair of the iteration in which it happened. -/
  trace : List (IdAndRecipient × Event) := []

/-- The loop body changes the state and may raise; what it changed before it raised stays changed. -/
abbrev SenderM := EStateM Exn State

def lift {α : Type} (result : Except Exn α) : SenderM α :=
  match result with
  | .ok a => pure a
  | .error e => throw e

def record (p : IdAndRecipient) (e : Event) : SenderM Unit :=
  modify fun v => { v with trace := v.trace ++ [(p, e)] }

section

variable {P : Platform} (it : Iteration P)

namespace Iteration

def check (c : Check) : Except Exn Unit :=
  if it.cancelled c then .error .syncCanceled else .ok ()

def call {α : Type} (c : Call) (result : Except Exn α) : Except Exn α :=
  match it.throws c with
  | some e => .error e
  | none => result

/-- The calls before the loop variables are changed. -/
def start : Except Exn Nat := do
  it.check .start
  it.call .sizeOfAllUndelivered (.ok (MessageDao.sizeOfAllUndelivered P.bareRow it.db))

def load (messageId : IdType) : Except Exn (Option MessageDao) :=
  it.call .load (.ok (MessageDao.load it.db messageId false))

def encode (dao : MessageDao) : Except Exn EncodedMessage := do
  it.check .afterLoad
  it.call .encodeMessage (MessageEncoder.encodeMessage P it.db dao)

def compressContent (msg : EncodedMessage) : Except Exn EncodedMessage :=
  it.call .compressContent (MessageCompressor.compressContent P msg)

def compressAttachments (msg : EncodedMessage) : Except Exn EncodedMessage :=
  it.call .compressAttachments (MessageCompressor.compressAttachments P msg)

/-- From the encoded message to what is sent: the recipient's key, the user's signature key and the encryption. -/
def address (msg : EncodedMessage) : Except Exn SendableMessage := do
  it.check .beforeGetPublicKey
  it.call .getPublicKey (.ok ())
  it.check .beforeGetSignatureKey
  it.call .getLatestKeyAndId (.ok ())
  it.check .beforeLoadPublicKey
  let encKey ← it.call .loadPublicKey (Platform.ofBotan (P.loadPublicKey it.encPubkey))
  it.check .beforeEncrypt
  let sendableMsg ← it.call .makeSendableMessage
    (.ok (MessageEncryptor.makeSendableMessage P it.random msg it.encKeyId encKey it.sigKeyId it.sigKey))
  it.check .beforeSend
  .ok sendableMsg

end Iteration

/-- What the progress callback computes. -/
def newProgress (v : State) (estimatedSize : Nat) (transfer : TransferProgress) : ProgressSums :=
  transferSums v.previouslyUploaded v.estimatedRemaining estimatedSize transfer

/-- The progress callback of one transfer. -/
def transferProgress (estimatedSize : Nat) (transfer : TransferProgress) (p : IdAndRecipient) : SenderM Unit := do
  let v ← get
  if (newProgress v estimatedSize transfer).toProgress ≠ v.progress then do
    set { v with progress := (newProgress v estimatedSize transfer).toProgress }
    record p (.progressed (newProgress v estimatedSize transfer))

/-- The event of a delivery that was just marked. -/
def emitModified (p : IdAndRecipient) (emit : Call) : SenderM Unit := do
  let v ← get
  record p (.marked v.db.delivery)
  record p (.messageModified v.currentConversationId v.currentMessageId)
  lift (it.call emit (.ok ()))

/-- `handleFailed`; its calls tell the handler inside `sendMessage` from the one around the iteration. -/
def handleFailed (p : IdAndRecipient) (mark emit : Call) (recipient : Option KulloAddress) (reason : Delivery.Reason) :
    SenderM Unit := do
  match recipient with
  | none => throw (.assertionFailed "this->is_initialized()")
  | some recipient => do
    lift (it.call mark (.ok ()))
    modify fun v =>
      { v with db := DeliveryDao.markAsFailed v.db v.currentMessageId recipient (it.nowUtc mark) reason }
    emitModified it p emit

/-- `sendMessage`. -/
def sendMessage (p : IdAndRecipient) (recipient : KulloAddress) (sendableMsg : SendableMessage) (estimatedSize : Nat) :
    SenderM Unit := do
  record p (.sendMessage recipient sendableMsg)
  for transfer in it.transfers do
    transferProgress estimatedSize transfer p
  match it.call .sendMessage (.ok ()) with
  | .error .notFound => handleFailed it p .markAsFailedInSend .emitFailedInSend (some recipient) .doesntExist
  | .error e => throw e
  | .ok () => do
    modify fun v => { v with previouslyUploaded := toSize (v.previouslyUploaded + it.uploadedBytes) }
    lift (it.call .markAsDelivered (.ok ()))
    modify fun v =>
      { v with db := DeliveryDao.markAsDelivered v.db v.currentMessageId recipient (it.nowUtc .markAsDelivered) }
    -- the listener is called inside the try block of the iteration
    emitModified it p .emitDelivered

/-- Loading, encoding and compressing the message of a pair.  The result is whether there is something to send. -/
def prepare (p : IdAndRecipient) : SenderM Bool := do
  match ← lift (it.load p.1) with
  | none => gone
  | some messageDao =>
    if messageDao.row.deleted then gone
    else do
      modify fun v => { v with currentConversationId := messageDao.row.conversationId }
      let msg ← lift (it.encode messageDao)
      -- the size of the text in bytes, where the database counts its characters
      modify fun v =>
        { v with
          encodedMessage := msg
          currentMessageEstimatedSize := perMessageOverhead + messageDao.row.text.utf8ByteSize + msg.attachments.length }
      let msg ← lift (it.compressContent msg)
      modify fun v => { v with encodedMessage := msg }
      let msg ← lift (it.compressAttachments msg)
      modify fun v => { v with encodedMessage := msg }
      record p (.prepared it.db msg)
      pure true
where
  /-- The deliveries of a message that does not exist any more are removed. -/
  gone : SenderM Bool := do
    lift (it.call .remove (.ok ()))
    modify fun v => { v with db := DeliveryDao.remove v.db p.1 }
    pure false

/-- Encrypting and sending the message, if there is one. -/
def dispatch (p : IdAndRecipient) : SenderM Unit := do
  let v ← get
  let sendableMsg ← lift (it.address v.encodedMessage)
  sendMessage it p p.2 sendableMsg v.currentMessageEstimatedSize

/-- The try block of one iteration.  A message is loaded only if its id differs from the one of the iteration before. -/
def attempt (p : IdAndRecipient) : SenderM Unit := do
  let size ← lift it.start
  let v ← get
  let sums := startSums v.previouslyUploaded size
  set { v with estimatedRemaining := size, progress := sums.toProgress }
  record p (.progressed sums)
  lift (it.call .emitProgressed (.ok ()))
  -- what raises before has no recipient to be marked as failed
  modify fun v => { v with currentMessageId := p.1, currentRecipient := some p.2 }
  if v.currentMessageId = p.1 then dispatch it p
  else do
    let ready ← prepare it p
    if ready then dispatch it p

/-- One iteration: the try block and its handlers. -/
def iterate (p : IdAndRecipient) : SenderM Unit := do
  modify fun v => { v with db := it.db, currentRecipient := none }
  tryCatch (attempt it p) fun
    | .canceled => throw .syncCanceled
    | .notFound => do handleFailed it p .markAsFailed .emitFailed (← get).currentRecipient .doesntExist
    | .syncCanceled => throw .syncCanceled
    -- every other exception, one of a listener too
    | _ => do handleFailed it p .markAsFailed .emitFailed (← get).currentRecipient .unknown

end

/-- The loop over the pairs, each with what its iteration meets. -/
def loop {P : Platform} : List (IdAndRecipient × Iteration P) → SenderM Unit
  | [] => pure ()
  | (p, it) :: rest => do
    iterate it p
    loop rest

/-- The pairs, each with the iteration of its place in the list. -/
def withIterations {P : Platform} (its : Nat → Iteration P) (pairs : List IdAndRecipient) :
    List (IdAndRecipient × Iteration P) :=
  pairs.zipIdx.map fun (p, i) => (p, its i)

/-- `run`, for a list of unsent messages that was loaded from `db`. -/
def run {P : Platform} (db : Db) (its : Nat → Iteration P) (previouslyUploaded : Nat) : SenderM Unit := do
  set { previouslyUploaded := previouslyUploaded, db := db : State }
  let idsAndRecipients ← lift (DeliveryDao.unsentMessages db)
  loop (withIterations its idsAndRecipients)

end MessagesSender

end KulloClient
