import KulloClient.Codec.AttachmentSplittingSink
import KulloClient.Dao.Message

/-!
# AttachmentSyncer

Downloading the attachments of a message, and the loop over all messages that have some left.  There is no surrounding
transaction: what the stream writes stays, whatever is raised, and leaving the scope of the stream destroys it, which
closes what is not closed.
-/

namespace KulloClient

open Pipeline

namespace AttachmentSyncer

/-- What one call of `downloadForMessage` meets: the cancel flag where it is read, and the server's answer. -/
structure Call where
  cancelledAtStart : Bool := false
  cancelledBeforeStream : Bool := false
  cancelledBeforeDownload : Bool := false
  answer : Except Exn Bytes

structure State where
  db : Db
  /-- The keys of `progress_.attachmentsBlocks`. -/
  attachmentsBlocks : List IdType := []
  previouslyDownloaded : Nat := 0
  /-- The `messageAttachmentsDownloaded` events. -/
  downloaded : List (IdType × IdType) := []

abbrev SyncerM := EStateM Exn State

variable (P : StreamPlatform)

/-- What is left when the stream has been used and destroyed. -/
structure Streamed where
  raised : Option Exn
  downloadedBytes : Nat
  sink : AttachmentSplittingSink

/-- `FilterChain::close`: the filters, and then the sink. -/
def closeChain (filters : AttachmentFilters P) (sink : AttachmentSplittingSink) :
    Option Exn × AttachmentSplittingSink :=
  let closed := feed (AttachmentSplittingSink.write P) filters.close sink
  match closed.raised with
  | some e => (some e, closed.sink)
  | none =>
    match AttachmentSplittingSink.close P closed.sink with
    | .ok _ sink => (none, sink)
    | .error e sink => (some e, sink)

def destroySink (sink : AttachmentSplittingSink) : AttachmentSplittingSink :=
  Imperative.final (AttachmentSplittingSink.destroy P sink)

/-- `FilterChain::~FilterChain` for a chain that is not closed. -/
def destroyChain (filters : AttachmentFilters P) (sink : AttachmentSplittingSink) : AttachmentSplittingSink :=
  destroySink P (closeChain P filters sink).2

/-- The end of a stream that could take everything. -/
def closeAndDestroy (downloadedBytes : Nat) (filters : AttachmentFilters P) (sink : AttachmentSplittingSink) :
    Streamed :=
  let closed := closeChain P filters sink
  ⟨closed.1, downloadedBytes, destroySink P closed.2⟩

/-- The body of the try block, and the destruction of the stream after it. -/
def useStream (call : Call) (attachmentsBlockTotalBytes : Nat) (filters : AttachmentFilters P)
    (sink : AttachmentSplittingSink) : Streamed :=
  if 0 < attachmentsBlockTotalBytes then
    if call.cancelledBeforeDownload then ⟨some .syncCanceled, 0, destroyChain P filters sink⟩
    else
      match call.answer with
      | .error e => ⟨some e, 0, destroyChain P filters sink⟩
      | .ok attachments =>
        let written := feed (AttachmentSplittingSink.write P) (filters.write attachments) sink
        match written.raised with
        | some e => ⟨some e, attachments.length, destroyChain P written.filter written.sink⟩
        | none => closeAndDestroy P attachments.length written.filter written.sink
  else closeAndDestroy P 0 filters sink

/-- The catch clauses: the number of downloaded bytes that is returned, or the exception that is passed on. -/
def catchStream (downloadedBytes : Nat) : Exn → Except Exn Nat
  | .canceled => .error .syncCanceled
  | .integrityFailure _ => .ok downloadedBytes
  | .gzipStreamError _ => .ok downloadedBytes
  | e => .error e

/-- `AttachmentSplittingSink(session, messageId, streamFactory)`. -/
def newSink (db : Db) (msgId : IdType) : EStateM.Result Exn AttachmentSplittingSink Unit :=
  AttachmentSplittingSink.makeStream P
    { db := db, messageId := msgId, attachmentDaos := AttachmentDao.allForMessage db false msgId }

/-- The part of `downloadForMessage` in which the stream exists. -/
def downloadWith (call : Call) (msg : MessageDao) (attachmentsBlockTotalBytes : Nat) (sink : AttachmentSplittingSink) :
    SyncerM Nat := do
  let msgId := msg.row.id
  match P.setKey msg.row.symmetricKey with
  | .error e => do
    -- the destructor of the chain closes the sink, through the one filter that is there
    let closed := Imperative.final (AttachmentSplittingSink.close P sink)
    modify fun s => { s with db := (destroySink P closed).db }
    throw (DecryptingFilter.ofCrypto e)
  | .ok cipher => do
    let filters := AttachmentFilters.new cipher
    if (← get).attachmentsBlocks.contains msgId then do
      -- the message has had its turn in this run
      modify fun s => { s with db := (destroyChain P filters sink).db }
      throw (.assertionFailed "insertionOk")
    else do
      let streamed := useStream P call attachmentsBlockTotalBytes filters sink
      modify fun s => { s with db := streamed.sink.db, attachmentsBlocks := s.attachmentsBlocks ++ [msgId] }
      match streamed.raised with
      | some e =>
        match catchStream streamed.downloadedBytes e with
        | .ok n => pure n
        | .error e => throw e
      | none => do
        modify fun s => { s with downloaded := s.downloaded ++ [(msg.row.conversationId, msgId)] }
        pure streamed.downloadedBytes

def downloadForMessage (call : Call) (msgId : IdType) : SyncerM Nat := do
  let db := (← get).db
  match MessageDao.load db msgId false with
  | none => pure 0
  | some msg =>
    if AttachmentDao.allAttachmentsDownloaded db msgId then pure 0
    else if call.cancelledAtStart then throw .syncCanceled
    else
      let attachmentsBlockTotalBytes :=
        ((AttachmentDao.allForMessage db false msg.row.id).map (fun dao => dao.row.size)).sum
      if call.cancelledBeforeStream then throw .syncCanceled
      else
        match newSink P db msgId with
        | .error e _ => throw e
        | .ok _ sink => downloadWith P call msg attachmentsBlockTotalBytes sink

/-- What one round of `run` meets. -/
structure Round where
  cancelledAtStart : Bool := false
  cancelledBeforeCall : Bool := false
  call : IdType → Call

/-- One round of `run`: whether there is another one. -/
def round (r : Round) : SyncerM Bool := do
  if r.cancelledAtStart then throw .syncCanceled
  else
    match AttachmentDao.msgIdForFirstDownloadable (← get).db with
    | none => pure false
    -- `msgId <= 0` stands for no message
    | some 0 => pure false
    | some msgId =>
      if r.cancelledBeforeCall then throw .syncCanceled
      else do
        let n ← downloadForMessage P (r.call msgId) msgId
        modify fun s => { s with previouslyDownloaded := s.previouslyDownloaded + n }
        pure true

/-- `run`, for at most `fuel` rounds; `none` is a run that needs more. -/
def run (rounds : Nat → Round) : Nat → Nat → State → Option (EStateM.Result Exn State Unit)
  | _, 0, _ => none
  | i, fuel + 1, s =>
    match round P (rounds i) s with
    | .ok true s' => run rounds (i + 1) fuel s'
    | .ok false s' => some (.ok () s')
    | .error e s' => some (.error e s')

end AttachmentSyncer

end KulloClient
