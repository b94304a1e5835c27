import KulloClient.Db.Schema
import KulloClient.Util.KulloAddress
import Mathlib.Data.List.Sort

/-!
# SenderDao, AvatarDao and ConversationDao

The sender of a message, the avatar it refers to and the conversation it belongs to: the rows that are written
together with a new message.
-/

namespace KulloClient

/-! ### Senders and avatars -/

structure SenderDao where
  messageId : IdType := 0
  name : String := ""
  address : KulloAddress
  organization : String := ""
  avatarMimeType : String := ""
  avatarHash : Option Int := none
  dirty : Bool := true
  storedInDb : Bool := false

namespace SenderDao

/-- `SenderDao(address, session)`. -/
def new (address : KulloAddress) : SenderDao where
  address := address

/-- `SenderDao::load`. -/
def load (db : Db) (messageId : IdType) : Except Exn (Option SenderDao) :=
  match db.senders.find? messageId with
  | none => .ok none
  | some r => do
    let address ← KulloAddress.ofString r.address
    .ok (some ⟨r.messageId, r.name, address, r.organization, r.avatarMimeType, r.avatarHash, false, true⟩)

/-- `assignAndUpdateDirty`: assigning the value a column already has leaves the dao clean. -/
def assign {α : Type} [DecidableEq α] (d : SenderDao) (get : SenderDao → α) (set : SenderDao → α → SenderDao) (v : α) :
    SenderDao :=
  if get d = v then d else { set d v with dirty := true }

/-- `setMessageId`, which makes the dao a new row. -/
def setMessageId (d : SenderDao) (v : IdType) : SenderDao :=
  d.assign messageId (fun d v => { d with messageId := v, storedInDb := false }) v

def setName (d : SenderDao) (v : String) : SenderDao :=
  d.assign name (fun d v => { d with name := v }) v

def setOrganization (d : SenderDao) (v : String) : SenderDao :=
  d.assign organization (fun d v => { d with organization := v }) v

def setAvatarMimeType (d : SenderDao) (v : String) : SenderDao :=
  d.assign avatarMimeType (fun d v => { d with avatarMimeType := v }) v

def setAvatarHash (d : SenderDao) (v : Option Int) : SenderDao :=
  d.assign avatarHash (fun d v => { d with avatarHash := v }) v

def toRow (d : SenderDao) : SenderRow where
  messageId := d.messageId
  name := d.name
  address := d.address.toString
  organization := d.organization
  avatarMimeType := d.avatarMimeType
  avatarHash := d.avatarHash

/-- `save`: only new rows are written. -/
def save (d : SenderDao) (db : Db) : Except Exn Db :=
  if d.dirty then do
    kulloAssert (!d.storedInDb) "!storedInDb_"
    kulloAssert (d.messageId ≤ idMax) "messageId_ >= ID_MIN && messageId_ <= ID_MAX"
    let senders ← insertRow db.senders d.toRow
    .ok { db with senders := senders }
  else .ok db

/-- `deletePermanently`. -/
def deletePermanently (d : SenderDao) (db : Db) : Db :=
  { db with senders := db.senders.deleteWhere (fun r => r.messageId == d.messageId) }

/-! What the setters do to the row and to the address. -/

section assign

variable {α : Type} [DecidableEq α] {d : SenderDao} {get : SenderDao → α} {set : SenderDao → α → SenderDao} {v : α}

private theorem assign_toRow (h : (set d (get d)).toRow = d.toRow) : (d.assign get set v).toRow = (set d v).toRow := by
  unfold assign
  split
  · next hv => rw [← hv, h]
  · rfl

private theorem assign_address (h : (set d v).address = d.address) : (d.assign get set v).address = d.address := by
  unfold assign
  split
  · rfl
  · exact h

end assign

@[simp] theorem setMessageId_toRow (d : SenderDao) (v : IdType) :
    (d.setMessageId v).toRow = { d.toRow with messageId := v } := assign_toRow rfl

@[simp] theorem setName_toRow (d : SenderDao) (v : String) : (d.setName v).toRow = { d.toRow with name := v } :=
  assign_toRow rfl

@[simp] theorem setOrganization_toRow (d : SenderDao) (v : String) :
    (d.setOrganization v).toRow = { d.toRow with organization := v } := assign_toRow rfl

@[simp] theorem setAvatarMimeType_toRow (d : SenderDao) (v : String) :
    (d.setAvatarMimeType v).toRow = { d.toRow with avatarMimeType := v } := assign_toRow rfl

@[simp] theorem setAvatarHash_toRow (d : SenderDao) (v : Option Int) :
    (d.setAvatarHash v).toRow = { d.toRow with avatarHash := v } := assign_toRow rfl

@[simp] theorem setMessageId_address (d : SenderDao) (v : IdType) : (d.setMessageId v).address = d.address :=
  assign_address rfl

@[simp] theorem setName_address (d : SenderDao) (v : String) : (d.setName v).address = d.address := assign_address rfl

@[simp] theorem setOrganization_address (d : SenderDao) (v : String) : (d.setOrganization v).address = d.address :=
  assign_address rfl

@[simp] theorem setAvatarMimeType_address (d : SenderDao) (v : String) :
    (d.setAvatarMimeType v).address = d.address := assign_address rfl

@[simp] theorem setAvatarHash_address (d : SenderDao) (v : Option Int) : (d.setAvatarHash v).address = d.address :=
  assign_address rfl

/-- A dao that `save` inserts. -/
structure IsNew (d : SenderDao) : Prop where
  dirty : d.dirty = true
  storedInDb : d.storedInDb = false

theorem IsNew.assign {α : Type} [DecidableEq α] {d : SenderDao} {get : SenderDao → α} {set : SenderDao → α → SenderDao}
    {v : α} (h : d.IsNew) (hset : (set d v).storedInDb = false) : (d.assign get set v).IsNew := by
  unfold SenderDao.assign
  split
  · exact h
  · exact ⟨rfl, hset⟩

theorem IsNew.save {d : SenderDao} (db : Db) (h : d.IsNew) (hid : d.messageId ≤ idMax)
    (hfree : db.senders.find? d.messageId = none) :
    d.save db = .ok { db with senders := db.senders.insert d.toRow hfree } := by
  have hinsert : insertRow db.senders d.toRow = .ok (db.senders.insert d.toRow hfree) := insertRow_of_find? hfree
  unfold SenderDao.save
  rw [if_pos h.dirty, h.storedInDb]
  simp only [Bool.not_false, kulloAssert_true, Imperative.ok_bind, hid, decide_true, hinsert]

end SenderDao

namespace AvatarDao

/-- `AvatarDao::load`; a query without a result raises. -/
def load (db : Db) (hash : Int) : Except Exn Bytes :=
  match db.avatars.find? hash with
  | some r => .ok r.avatar
  | none => .error (.sqliteException "query returned no rows")

/-- `AvatarDao::store`, given the hash of the avatar. -/
def store (db : Db) (hash : Int) (avatar : Bytes) : Db :=
  { db with avatars := db.avatars.insertOrIgnore ⟨hash, avatar⟩ }

end AvatarDao

/-! ### Conversations -/

/-- `std::set<KulloAddress>::insert`, on the sorted list of the elements. -/
def insertAddress (a : KulloAddress) : List KulloAddress → List KulloAddress
  | [] => [a]
  | b :: bs => if a = b then b :: bs else if a.lt b then a :: b :: bs else b :: insertAddress a bs

structure ConversationDao where
  id : IdType := 0
  participants : String := ""
  dirty : Bool := true
  storedInDb : Bool := false
  deriving DecidableEq

namespace ConversationDao

/-- `makeParticipantsString`. -/
def makeParticipantsString (participants : List KulloAddress) : String :=
  String.intercalate "," ((participants.map KulloAddress.toString).insertionSort (fun a b => decide (a ≤ b)))

def ofRow (r : ConversationRow) : ConversationDao := ⟨r.id, r.participants, false, true⟩

@[simp] theorem ofRow_id (r : ConversationRow) : (ofRow r).id = r.id := rfl

@[simp] theorem ofRow_participants (r : ConversationRow) : (ofRow r).participants = r.participants := rfl

/-- `load(id, session)`. -/
def load (db : Db) (id : IdType) : Option ConversationDao :=
  (db.conversations.find? id).map ofRow

/-- `load(participants, session)`. -/
def loadByParticipants (db : Db) (participants : List KulloAddress) : Option ConversationDao :=
  (db.conversations.rows.find? (fun r => r.participants == makeParticipantsString participants)).map ofRow

/-- `participantsList`: what `getline` reads between the commas, which is nothing after the last one. -/
def participantsList (d : ConversationDao) : List String :=
  let parts := d.participants.toList.splitOn ','
  (if parts.getLast? = some [] then parts.dropLast else parts).map String.ofList

/-- The participants that were written, in the order of their texts. -/
def sortedNames (participants : List KulloAddress) : List String :=
  (participants.map KulloAddress.toString).insertionSort (fun a b => decide (a ≤ b))

theorem mem_sortedNames {participants : List KulloAddress} {name : String} :
    name ∈ sortedNames participants ↔ ∃ p ∈ participants, p.toString = name := by
  simp [sortedNames]

/-- What `makeParticipantsString` joins, `participantsList` takes apart. -/
theorem participantsList_make {d : ConversationDao} {participants : List KulloAddress} (hne : participants ≠ [])
    (h : d.participants = makeParticipantsString participants) : d.participantsList = sortedNames participants := by
  have hname : ∀ name ∈ sortedNames participants, ',' ∉ name.toList ∧ name.toList ≠ [] := by
    intro name hmem
    obtain ⟨p, _, rfl⟩ := mem_sortedNames.mp hmem
    refine ⟨p.comma_notMem_toString, ?_⟩
    intro hnil
    exact p.toString_ne_empty (String.toList_eq_nil_iff.mp hnil)
  have hlen : (sortedNames participants).length = participants.length := by simp [sortedNames]
  have hsplit : d.participants.toList.splitOn ',' = (sortedNames participants).map String.toList := by
    have hjoin : d.participants = String.intercalate "," (sortedNames participants) := h
    rw [hjoin, String.toList_intercalate]
    apply List.splitOn_intercalate
    · intro l hl
      obtain ⟨name, hmem, rfl⟩ := List.mem_map.mp hl
      exact (hname name hmem).1
    · rw [ne_eq, List.map_eq_nil_iff, ← List.length_eq_zero_iff, hlen, List.length_eq_zero_iff]
      exact hne
  have hlast : ((sortedNames participants).map String.toList).getLast? ≠ some [] := by
    intro hlast
    obtain ⟨name, hmem, hnil⟩ := List.mem_map.mp (List.mem_of_getLast? hlast)
    exact (hname name hmem).2 hnil
  unfold participantsList
  rw [hsplit]
  simp only [hlast, if_false, List.map_map]
  refine (List.map_congr_left ?_).trans (List.map_id _)
  intro name _
  exact String.ofList_toList

/-- `all`, ordered by id. -/
def all (db : Db) : List ConversationDao :=
  (db.conversations.rows.insertionSort (fun r r' => decide (r.id ≤ r'.id))).map ofRow

def setParticipants (d : ConversationDao) (participants : List KulloAddress) : ConversationDao :=
  if d.participants = makeParticipantsString participants then d
  else { d with participants := makeParticipantsString participants, dirty := true }

/-- The rowid SQLite gives to a new conversation. -/
def nextId (db : Db) : IdType :=
  (db.conversations.rows.map ConversationRow.id).foldl max 0 + 1

/-- `save`: whether the conversation is new, the dao with its id and the database. -/
def save (d : ConversationDao) (db : Db) : Except Exn (Bool × ConversationDao × Db) :=
  if d.dirty then do
    kulloAssert (!d.storedInDb) "!storedInDb_"
    kulloAssert (d.participants.length ≠ 0) "participants_.length() != 0"
    if db.conversations.rows.any (fun r => r.participants == d.participants) then .error sqliteConstraint
    else do
      let conversations ← insertRow db.conversations ⟨nextId db, d.participants⟩
      .ok (true, { d with id := nextId db, dirty := false, storedInDb := true },
        { db with conversations := conversations })
  else .ok (false, d, db)

/-- `deletePermanently`, of a dao that was not deleted before. -/
def deletePermanently (d : ConversationDao) (db : Db) : Db :=
  { db with conversations := db.conversations.deleteWhere (fun r => r.id == d.id) }

/-- The uniqueness constraint of the table. -/
def UniqueParticipants (db : Db) : Prop :=
  ∀ r ∈ db.conversations, ∀ r' ∈ db.conversations, r.participants = r'.participants → r = r'

/-! The rows the statements leave. -/

theorem mem_all {db : Db} {d : ConversationDao} : d ∈ all db ↔ ∃ r ∈ db.conversations, ofRow r = d := by
  simp [all]

/-- Different conversations have different ids and different participants. -/
theorem pairwise_all {db : Db} (h : UniqueParticipants db) :
    (all db).Pairwise (fun d d' => d.id ≠ d'.id ∧ d.participants ≠ d'.participants) := by
  have hmem : ∀ r, r ∈ db.conversations.rows.insertionSort (fun r r' => decide (r.id ≤ r'.id)) ↔
      r ∈ db.conversations := fun r => List.mem_insertionSort _
  have hnodup : (db.conversations.rows.insertionSort (fun r r' => decide (r.id ≤ r'.id))).Nodup :=
    (List.perm_insertionSort _ _).nodup_iff.mpr (List.Nodup.of_map _ db.conversations.nodup)
  unfold all
  rw [List.pairwise_map]
  refine hnodup.pairwise_of_forall_ne ?_
  intro r hr r' hr' hne
  rw [hmem] at hr hr'
  exact ⟨fun hid => hne (Relational.Table.eq_of_key_eq hr hr' hid), fun hp => hne (h r hr r' hr' hp)⟩

private theorem le_foldl_max {ids : List Nat} {id start : Nat} (h : id ≤ start ∨ id ∈ ids) :
    id ≤ ids.foldl max start := by
  induction ids generalizing start with
  | nil => simpa using h
  | cons i ids ih =>
    rw [List.foldl_cons]
    apply ih
    rcases h with h | h
    · exact .inl (h.trans (Nat.le_max_left _ _))
    · rcases List.mem_cons.mp h with rfl | h
      · exact .inl (Nat.le_max_right _ _)
      · exact .inr h

theorem find?_nextId (db : Db) : db.conversations.find? (nextId db) = none := by
  rw [Relational.Table.find?_eq_none]
  intro r hr hid
  have hle : r.id ≤ (db.conversations.rows.map ConversationRow.id).foldl max 0 :=
    le_foldl_max (.inr (List.mem_map_of_mem hr))
  exact Nat.not_succ_le_self _ (hid ▸ hle)

theorem load_eq_some {db : Db} {id : IdType} {d : ConversationDao} :
    load db id = some d ↔ ∃ r ∈ db.conversations, r.id = id ∧ ofRow r = d := by
  simp only [load, Option.map_eq_some_iff, Relational.Table.find?_eq_some, and_assoc]

/-- The database with a new conversation. -/
def insertNew (db : Db) (participants : String) : Db :=
  { db with conversations := db.conversations.insert ⟨nextId db, participants⟩ (find?_nextId db) }

theorem mem_insertNew {db : Db} {participants : String} {r : ConversationRow} :
    r ∈ (insertNew db participants).conversations ↔ r ∈ db.conversations ∨ r = ⟨nextId db, participants⟩ :=
  Relational.Table.mem_insert (h := find?_nextId db)

theorem load_insertNew (db : Db) (participants : String) (id : IdType) :
    load (insertNew db participants) id =
      if nextId db = id then some ⟨id, participants, false, true⟩ else load db id := by
  unfold load insertNew
  rw [Relational.Table.find?_insert]
  split
  · next h => rw [← h]; rfl
  · rfl

theorem load_nextId (db : Db) : load db (nextId db) = none := by
  rw [load, find?_nextId, Option.map_none]

theorem load_deletePermanently (d : ConversationDao) (db : Db) (id : IdType) :
    load (d.deletePermanently db) id = if d.id = id then none else load db id := by
  unfold load deletePermanently
  rw [Relational.Table.find?_deleteWhere]
  cases hfind : db.conversations.find? id with
  | none => simp
  | some r =>
    have hkey : r.id = id := Relational.Table.key_of_find? hfind
    by_cases hid : d.id = id
    · simp [hid, hkey]
    · have hne : (r.id == d.id) = false := by simpa [hkey] using Ne.symm hid
      rw [if_neg hid, Option.filter_some, hne]
      rfl

theorem save_new {db : Db} {participants : String} (hne : participants ≠ "")
    (hfree : ∀ r ∈ db.conversations, r.participants ≠ participants) :
    save { participants := participants } db =
      .ok (true, ⟨nextId db, participants, false, true⟩, insertNew db participants) := by
  have hlen : decide (participants.length ≠ 0) = true := by
    simpa [String.length_eq_zero_iff] using hne
  have hany : db.conversations.rows.any (fun r => r.participants == participants) = false := by
    rw [List.any_eq_false]
    intro r hr
    simpa using hfree r hr
  have hinsert : insertRow db.conversations ⟨nextId db, participants⟩ =
      .ok (db.conversations.insert ⟨nextId db, participants⟩ (find?_nextId db)) :=
    insertRow_of_find? (find?_nextId db)
  unfold save
  simp only [if_true, Bool.not_false, kulloAssert_true, hlen, hany, hinsert, Imperative.ok_bind, Bool.false_eq_true,
    if_false]
  rfl

theorem save_empty (db : Db) : save {} db = .error (.assertionFailed "participants_.length() != 0") := rfl

end ConversationDao

end KulloClient
