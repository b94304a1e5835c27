import KulloClient.Codec.AttachmentFilters
import KulloClient.Dao.AttachmentContent

/-!
# AttachmentSplittingSink

The plaintext of a block is the contents of the attachments one after the other.  For each attachment there is a stream
of its own, `HashVerifyingFilter` in front of `MessageAttachmentSink`.  Every step works on the database itself, and
what was written stays when something is raised later.
-/

namespace KulloClient

open Pipeline

/-- The stream of one attachment; `bytesWritten` is there while the blob is open. -/
structure AttachmentStream where
  messageId : IdType
  index : IdType
  size : Nat
  expectedHash : Bytes
  hashed : Bytes := []
  bytesWritten : Option Nat := none
  closed : Bool := false
  deriving DecidableEq

abbrev StreamM := EStateM Exn (AttachmentStream × Db)

namespace AttachmentStream

def key (stream : AttachmentStream) : AttachmentKey := (false, stream.messageId, stream.index)

end AttachmentStream

/-! ### MessageAttachmentSink -/

namespace MessageAttachmentSink

/-- The content becomes a blob of zeros before its first byte is written. -/
def openIfNotOpen : StreamM Unit := do
  let (stream, db) ← get
  match stream.bytesWritten with
  | some _ => pure ()
  | none =>
    match db.attachmentsContent.find? stream.key with
    | none => throw (.sqliteException "query returned no rows")
    | some _ => set ({ stream with bytesWritten := some 0 }, setContent db stream.key (zeroblob stream.size))

def write (buffer : Bytes) : StreamM Unit := do
  openIfNotOpen
  let (stream, db) ← get
  let bytesWritten := stream.bytesWritten.getD 0
  if stream.size < bytesWritten + buffer.length then
    throw (.databaseIntegrityError
      "MessageAttachmentSink::write: The stored size is smaller than the stream length")
  else
    let content := ((db.attachmentsContent.find? stream.key).bind AttachmentContentRow.content).getD []
    set ({ stream with bytesWritten := some (bytesWritten + buffer.length) },
      setContent db stream.key (overwrite content bytesWritten buffer))

def close : StreamM Unit := do
  openIfNotOpen
  let (stream, db) ← get
  let bytesWritten := stream.bytesWritten.getD 0
  set ({ stream with bytesWritten := none }, db)
  if bytesWritten < stream.size then
    throw (.databaseIntegrityError
      "MessageAttachmentSink::close: The stored size is larger than the stream length")

end MessageAttachmentSink

/-! ### HashVerifyingFilter -/

namespace HashVerifyingFilter

variable (P : StreamPlatform)

/-- The assertion of the constructor. -/
def wrongSize (expectedHash : Bytes) : Exn :=
  .assertionFailed ("expectedHash_.size() == impl_->hashFun->output_length(); Wrong expected hash size: " ++
    toString expectedHash.length)

def write (data : Bytes) : StreamM Unit := do
  modify fun s => ({ s.1 with hashed := s.1.hashed ++ data }, s.2)
  MessageAttachmentSink.write data

def close : StreamM Unit := do
  let (stream, _) ← get
  if P.sha512 stream.hashed ≠ stream.expectedHash then throw .hashDoesntMatch

end HashVerifyingFilter

namespace AttachmentStream

variable (P : StreamPlatform)

/-- `FilterChain::write`, for the chain of one attachment. -/
def write (buffer : Bytes) : StreamM Unit := do
  let (stream, _) ← get
  if stream.closed then throw (.assertionFailed "!closed_")
  HashVerifyingFilter.write buffer

/-- `FilterChain::close`: first the filter, then the sink. -/
def close : StreamM Unit := do
  let (stream, _) ← get
  if stream.closed then throw (.assertionFailed "!closed_")
  modify fun s => ({ s.1 with closed := true }, s.2)
  HashVerifyingFilter.close P
  MessageAttachmentSink.close

/-- `FilterChain::~FilterChain`. -/
def destroy : StreamM Unit := do
  let (stream, _) ← get
  if stream.closed then pure () else tryCatch (close P) (fun _ => pure ())

end AttachmentStream

/-! ### AttachmentSplittingSink -/

structure AttachmentSplittingSink where
  db : Db
  messageId : IdType
  attachmentDaos : List AttachmentDao
  stream : Option AttachmentStream := none
  bytesLeftInCurrentStream : Nat := 0

abbrev SinkM := EStateM Exn AttachmentSplittingSink

namespace AttachmentSplittingSink

variable (P : StreamPlatform)

/-- The length of a SHA-512 hash. -/
def hashLength : Nat := 64

/-- Runs a step of the current stream. -/
def onStream (stream : AttachmentStream) (x : StreamM Unit) : SinkM Unit := fun s =>
  match x (stream, s.db) with
  | .ok _ (stream, db) => .ok () { s with stream := some stream, db := db }
  | .error e (stream, db) => .error e { s with stream := some stream, db := db }

def makeStream : SinkM Unit := do
  let s ← get
  match s.attachmentDaos with
  | [] => pure ()
  | dao :: attachmentDaos => do
    -- set before the hash is looked at
    set { s with bytesLeftInCurrentStream := dao.row.size }
    match P.hexDecode dao.row.hash with
    | .error .integrityFailure => throw (.botanException "integrity failure")
    | .error (.other message) => throw (.botanException message)
    | .ok expectedHash =>
      if expectedHash.length ≠ hashLength then throw (HashVerifyingFilter.wrongSize expectedHash)
      else
        set
          { s with
            bytesLeftInCurrentStream := dao.row.size
            stream := some
              { messageId := s.messageId, index := dao.row.index, size := dao.row.size, expectedHash := expectedHash }
            attachmentDaos := attachmentDaos }

def closeStream : SinkM Unit := do
  match (← get).stream with
  | none => pure ()
  | some stream => do
    onStream stream (AttachmentStream.close P)
    modify fun s => { s with stream := none }

/-- One round of the loop of `write`: whether it goes on, and what is left of the buffer. -/
def writeRound (buffer : Bytes) : SinkM (Bool × Bytes) := do
  let s ← get
  match s.stream with
  | none => pure (false, buffer)
  | some stream =>
    if buffer.isEmpty then pure (false, buffer)
    else do
      let bytesToWrite := min buffer.length s.bytesLeftInCurrentStream
      onStream stream (AttachmentStream.write (buffer.take bytesToWrite))
      modify fun s => { s with bytesLeftInCurrentStream := s.bytesLeftInCurrentStream - bytesToWrite }
      -- an attachment of no bytes is closed in a round of its own
      if s.bytesLeftInCurrentStream - bytesToWrite = 0 then do
        closeStream P
        makeStream P
      pure (true, buffer.drop bytesToWrite)

/-- The loop of `write`.  A round either takes the whole buffer or an attachment from the queue, so there are at most
two more rounds than the queue is long. -/
def writeLoop : Nat → Bytes → SinkM Bytes
  | 0, buffer => pure buffer
  | n + 1, buffer => do
    let (more, buffer) ← writeRound P buffer
    if more then writeLoop n buffer else pure buffer

def write (buffer : Bytes) : SinkM Unit := do
  if (← get).stream.isNone then makeStream P
  let bytesLeft ← writeLoop P ((← get).attachmentDaos.length + 2) buffer
  if !bytesLeft.isEmpty then throw (.databaseIntegrityError "AttachmentSplittingSink: stream is too long")

/-- The loop of `close`, which drains empty attachments from the queue. -/
def closeLoop : List AttachmentDao → SinkM Unit
  | [] => do
    let s ← get
    if s.stream.isSome && s.bytesLeftInCurrentStream == 0 then do
      closeStream P
      makeStream P
  | _ :: attachmentDaos => do
    let s ← get
    if s.stream.isSome && s.bytesLeftInCurrentStream == 0 then do
      closeStream P
      makeStream P
      closeLoop attachmentDaos

def close : SinkM Unit := do
  closeLoop P (← get).attachmentDaos
  closeStream P
  let s ← get
  if !s.attachmentDaos.isEmpty || 0 < s.bytesLeftInCurrentStream then
    throw (.databaseIntegrityError "AttachmentSplittingSink: stream is too short")

/-- The implicit destructor, which destroys the current stream. -/
def destroy : SinkM Unit := do
  match (← get).stream with
  | none => pure ()
  | some stream => onStream stream (AttachmentStream.destroy P)

end AttachmentSplittingSink

end KulloClient
