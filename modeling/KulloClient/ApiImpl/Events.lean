import KulloClient.Base.EventLoop
import KulloClient.Types

/-!
# The events of a session

What the operations of a session announce, and what `SessionImpl::notify` answers.  The events of the two threads go
through the queue of `SessionListener::internalEvent`, and `notify` is called on the main thread only.
-/

namespace KulloClient

/-- The threads that announce events: the main thread, the syncer and the jobs that add draft attachments. -/
inductive SessionThread
  | main
  | syncer
  | draftAttachments (job : Nat)
  deriving DecidableEq

/-- `Api::EventType`. -/
inductive EventType
  | conversationAdded
  | conversationRemoved
  | conversationChanged
  | draftStateChanged
  | draftTextChanged
  | draftAttachmentAdded
  | draftAttachmentRemoved
  | messageAdded
  | messageStateChanged
  | messageDeliveryChanged
  | messageRemoved
  deriving DecidableEq

/-- `Api::Event`; an id that is not applicable is `none`. -/
structure ApiEvent where
  event : EventType
  conversationId : IdType
  messageId : Option IdType := none
  attachmentId : Option IdType := none
  deriving DecidableEq

/-- The internal events. -/
inductive Event
  | conversationAdded (convId : IdType)
  | conversationModified (convId : IdType)
  | conversationWillBeRemoved (convId : IdType)
  | messageAdded (convId msgId : IdType)
  | messageModified (convId msgId : IdType)
  | messageRemoved (convId msgId : IdType)
  | senderAdded (convId msgId : IdType)
  | draftModified (convId : IdType)
  | draftRemoved (convId : IdType)
  | draftAttachmentAdded (convId attId : IdType)
  | draftAttachmentRemoved (convId attId : IdType)
  | sendApiEvents (apiEvents : List ApiEvent)
  deriving DecidableEq

/-- The assertion on every id. -/
def assertId (id : IdType) (name : String) : Except Exn Unit :=
  kulloAssert (id ≤ idMax) (name ++ " >= Kullo::ID_MIN && " ++ name ++ " <= Kullo::ID_MAX")

theorem assertId_raises (id : IdType) (name : String) :
    Imperative.RaisesOnly
      (· = .assertionFailed (name ++ " >= Kullo::ID_MIN && " ++ name ++ " <= Kullo::ID_MAX")) (assertId id name) := by
  intro e he
  unfold assertId kulloAssert at he
  split at he
  · cases he
  · cases he
    rfl

theorem assertId_of_le {id : IdType} {name : String} (h : id ≤ idMax) : assertId id name = .ok () := by
  unfold assertId
  rw [decide_eq_true h, kulloAssert_true]

theorem le_of_assertId {id : IdType} {name : String} (h : assertId id name = .ok ()) : id ≤ idMax := by
  unfold assertId kulloAssert at h
  split at h
  · next hle => exact of_decide_eq_true hle
  · cases h

end KulloClient
