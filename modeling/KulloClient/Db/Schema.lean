import KulloClient.Base.Table
import KulloClient.Types

/-!
# The database

The tables the modelled functions read or write, with the columns of the current schema.  A statement is a function on
`Db`; a statement that violates a primary key raises `SmartSqlite`'s exception, here `sqliteConstraint`.
-/

namespace KulloClient

open Relational (Table)

/-- A row of `messages`.  The row with `old` set is the state of the last sync, kept while there are local changes. -/
structure MessageRow where
  id : IdType
  conversationId : IdType := 0
  sender : String := ""
  lastModified : LastModified := 0
  deleted : Bool := false
  metaVersion : MetaVersion := 0
  read : Bool := false
  done : Bool := false
  dateSent : String := ""
  dateReceived : String := ""
  text : String := ""
  footer : String := ""
  symmetricKey : Bytes := []
  old : Bool := false
  deriving DecidableEq

def MessageRow.key (r : MessageRow) : IdType × Bool := (r.id, r.old)

structure SenderRow where
  messageId : IdType
  name : String
  address : String
  organization : String
  avatarMimeType : String
  avatarHash : Option Int
  deriving DecidableEq

structure AvatarRow where
  hash : Int
  avatar : Bytes
  deriving DecidableEq

structure ConversationRow where
  id : IdType
  participants : String
  deriving DecidableEq

/-- The primary key of the attachment tables: the draft flag, the id of the message (of the conversation, for a
draft) and the index. -/
abbrev AttachmentKey := Bool × IdType × IdType

structure AttachmentRow where
  draft : Bool
  messageId : IdType
  index : IdType
  filename : String
  mimeType : String
  size : Nat
  hash : String
  note : String
  deriving DecidableEq

def AttachmentRow.key (r : AttachmentRow) : AttachmentKey := (r.draft, r.messageId, r.index)

structure AttachmentContentRow where
  draft : Bool
  messageId : IdType
  index : IdType
  content : Option Bytes
  deriving DecidableEq

def AttachmentContentRow.key (r : AttachmentContentRow) : AttachmentKey := (r.draft, r.messageId, r.index)

/-- A row of `delivery`, the one table without a primary key. -/
structure DeliveryRow where
  messageId : IdType
  recipient : String
  state : String
  reason : Option String := none
  date : Option String := none
  lockHolder : Option String := none
  lockExpires : Option String := none
  deriving DecidableEq

inductive DraftState
  | editing
  | sending
  deriving DecidableEq

/-- A row of `drafts`; its `old` column is always 0. -/
structure DraftRow where
  id : IdType := 0
  conversationId : IdType
  lastModified : LastModified := 0
  text : String := ""
  footer : String := ""
  senderName : String := ""
  senderOrganization : String := ""
  senderAvatar : Bytes := []
  senderAvatarMimeType : String := ""
  state : DraftState := .editing
  deriving DecidableEq

/-- The key types of `keys_asymm` and `keys_public`. -/
inductive AsymmetricKeyType
  | encryption
  | signature
  deriving DecidableEq

structure AsymmetricKeyPairRow where
  id : IdType
  keyType : AsymmetricKeyType
  privkey : Bytes
  deriving DecidableEq

structure PublicKeyRow where
  address : String
  keyType : AsymmetricKeyType
  id : IdType
  keyData : Bytes
  deriving DecidableEq

def PublicKeyRow.key (r : PublicKeyRow) : String × IdType × AsymmetricKeyType := (r.address, r.id, r.keyType)

/-- `SyncDao::DataType`. -/
inductive SyncDataType
  | message
  | profile
  deriving DecidableEq

structure SyncRow where
  type : SyncDataType
  timestamp : LastModified
  deriving DecidableEq

/-- A row of `usersettings`; the values are the bytes of the C++ strings. -/
structure UserSettingRow where
  key : String
  remoteValue : Option Bytes := none
  localValue : Option Bytes := none
  lastModified : LastModified := 0
  deriving DecidableEq

structure Db where
  messages : Table MessageRow.key := ∅
  senders : Table SenderRow.messageId := ∅
  avatars : Table AvatarRow.hash := ∅
  conversations : Table ConversationRow.id := ∅
  attachments : Table AttachmentRow.key := ∅
  attachmentsContent : Table AttachmentContentRow.key := ∅
  delivery : List DeliveryRow := []
  drafts : Table DraftRow.conversationId := ∅
  keysAsymm : Table AsymmetricKeyPairRow.id := ∅
  keysPublic : Table PublicKeyRow.key := ∅
  sync : Table SyncRow.type := ∅
  usersettings : Table UserSettingRow.key := ∅
  deriving DecidableEq

/-- A violated primary key or uniqueness constraint. -/
def sqliteConstraint : Exn := .sqliteException "constraint failed"

/-- `INSERT`, raising on a violated constraint. -/
def insertRow {ρ κ : Type} {key : ρ → κ} [DecidableEq κ] (t : Table key) (r : ρ) : Except Exn (Table key) :=
  match t.insert? r with
  | some t' => .ok t'
  | none => .error sqliteConstraint

theorem insertRow_eq_ok {ρ κ : Type} {key : ρ → κ} [DecidableEq κ] {t t' : Table key} {r : ρ} :
    insertRow t r = .ok t' ↔ t.insert? r = some t' := by
  unfold insertRow
  split <;> simp_all

theorem insertRow_of_find? {ρ κ : Type} {key : ρ → κ} [DecidableEq κ] {t : Table key} {r : ρ}
    (h : t.find? (key r) = none) : insertRow t r = .ok (t.insert r h) := by
  simp [insertRow, Relational.Table.insert?_of_find? h]

end KulloClient
