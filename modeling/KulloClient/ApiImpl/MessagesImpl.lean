import KulloClient.ApiImpl.Events
import KulloClient.Dao.Message
import Mathlib.Logic.Function.Basic

/-!
# MessagesImpl

The messages as the main thread has cached them: the daos by id, and the ids by the conversation.  Each of the
operations changes both maps, but for `messageModified`, which puts a message that is not cached into one of them.
-/

namespace KulloClient

open Relational (Table)

structure MessagesImpl where
  idsForConvId : IdType → List IdType := fun _ => []
  messages : Table (fun dao : MessageDao => dao.row.id) := ∅

namespace MessagesImpl

/-- What the constructor does with a message of the database. -/
def emplace (c : MessagesImpl) (dao : MessageDao) : MessagesImpl where
  idsForConvId :=
    Function.update c.idsForConvId dao.row.conversationId (c.idsForConvId dao.row.conversationId ++ [dao.row.id])
  messages := c.messages.insertOrIgnore dao

/-- The constructor. -/
def construct (db : Db) : MessagesImpl := (MessageDao.all db).foldl emplace {}

def allForConversation (c : MessagesImpl) (convId : IdType) : Except Exn (List IdType) := do
  assertId convId "convId"
  .ok (c.idsForConvId convId)

def removeFromCache (c : MessagesImpl) (msgId : IdType) : Except Exn (Option MessageDao × MessagesImpl) :=
  match c.messages.find? msgId with
  | none => .ok (none, c)
  | some dao => do
    let idsForConv := c.idsForConvId dao.row.conversationId
    kulloAssert (idsForConv.contains msgId) "idIter != idsForConv.end()"
    .ok (some dao,
      { idsForConvId := Function.update c.idsForConvId dao.row.conversationId (idsForConv.erase msgId)
        messages := c.messages.deleteWhere (fun dao => dao.row.id == msgId) })

@[irreducible] def removeFromDb (dao : MessageDao) (db : Db) : Except Exn (List ApiEvent × Db) := do
  let (_, _, db) ← (dao.clearData.setDeleted true).2.save .yes db
  .ok ([{ event := .messageRemoved, conversationId := dao.row.conversationId, messageId := dao.row.id }], db)

/-- What an operation or a handler leaves behind, with the exception it ends with and the events it announces. -/
structure Effect where
  messages : MessagesImpl
  db : Db
  events : List Event := []
  apiEvents : List ApiEvent := []
  raised : Option Exn := none
  /-- The messages that were removed. -/
  removed : List IdType := []

def remove (c : MessagesImpl) (db : Db) (msgId : IdType) : Effect :=
  match assertId msgId "msgId" with
  | .error e => { messages := c, db := db, raised := some e }
  | .ok _ =>
    match c.removeFromCache msgId with
    | .error e => { messages := c, db := db, raised := some e }
    | .ok (none, c) => { messages := c, db := db }
    | .ok (some removedDao, c) =>
      match removeFromDb removedDao db with
      | .error e => { messages := c, db := db, raised := some e }
      | .ok (events, db) =>
        { messages := c
          db := db
          events := [.sendApiEvents events, .conversationModified removedDao.row.conversationId,
            .messageRemoved removedDao.row.conversationId msgId]
          removed := [msgId] }

/-- `setState`: whether the state of the message changed. -/
def setState (c : MessagesImpl) (db : Db) (state : MessageState) (msgId : IdType) (value : Bool) : Bool × Effect :=
  match assertId msgId "msgId" with
  | .error e => (false, { messages := c, db := db, raised := some e })
  | .ok _ =>
    match c.messages.find? msgId with
    | none => (false, { messages := c, db := db })
    | some dao =>
      if dao.row.state state ≠ value then
        match (dao.setState state value).2.save .yes db with
        | .error e =>
          -- the cached message has its new state when the save raises
          (false, { messages := { c with messages := c.messages.replace (dao.setState state value).2 }, db := db, raised := some e })
        | .ok (_, saved, db) =>
          (true,
            { messages := { c with messages := c.messages.replace saved }
              db := db
              events := [.conversationModified dao.row.conversationId,
                .sendApiEvents [{ event := .messageStateChanged, conversationId := dao.row.conversationId,
                                  messageId := msgId }]] })
      else (false, { messages := c, db := db })

/-! ### The handlers -/

def messageAdded (c : MessagesImpl) (db : Db) (msgId : IdType) : Effect :=
  match MessageDao.load db msgId false with
  | none => { messages := c, db := db, raised := some (.databaseIntegrityError "MessagesImpl::messageAdded") }
  | some dao =>
    let idsForThisConvId := c.idsForConvId dao.row.conversationId ++ [msgId]
    { messages :=
        { idsForConvId := Function.update c.idsForConvId dao.row.conversationId
            (idsForThisConvId.insertionSort (fun i j => decide (i ≤ j)))
          messages := c.messages.insertOrIgnore dao }
      db := db
      apiEvents := [{ event := .messageAdded, conversationId := dao.row.conversationId, messageId := msgId }] }

/-- An unknown message is inserted into `messages_` only. -/
def messageModified (c : MessagesImpl) (db : Db) (msgId : IdType) : Effect :=
  match MessageDao.load db msgId false with
  | none => { messages := c, db := db, raised := some (.databaseIntegrityError "MessagesImpl::messageModified") }
  | some dao =>
    let stateChanged := match c.messages.find? msgId with
      | some oldDao => !dao.equals oldDao
      | none => true
    { messages := { c with messages := c.messages.insertOrReplace dao }
      db := db
      apiEvents :=
        if stateChanged then
          [{ event := .messageStateChanged, conversationId := dao.row.conversationId, messageId := msgId }]
        else [] }

/-- The loop of `conversationWillBeRemoved`. -/
def removeMessages (c : MessagesImpl) (db : Db) : List IdType → Effect
  | [] => { messages := c, db := db }
  | msgId :: msgIds =>
    match c.removeFromCache msgId with
    | .error e => { messages := c, db := db, raised := some e }
    | .ok (none, c) => removeMessages c db msgIds
    | .ok (some removedDao, c) =>
      match removeFromDb removedDao db with
      | .error e => { messages := c, db := db, raised := some e }
      | .ok (events, db) =>
        let rest := removeMessages c db msgIds
        { rest with
          events := .messageRemoved removedDao.row.conversationId msgId :: rest.events
          apiEvents := events ++ rest.apiEvents
          removed := msgId :: rest.removed }

def conversationWillBeRemoved (c : MessagesImpl) (db : Db) (convId : IdType) : Effect :=
  match c.allForConversation convId with
  | .error e => { messages := c, db := db, raised := some e }
  | .ok msgIds => removeMessages c db msgIds

def messageRemoved (c : MessagesImpl) (db : Db) (msgId : IdType) : Effect :=
  match c.removeFromCache msgId with
  | .error e => { messages := c, db := db, raised := some e }
  | .ok (none, c) => { messages := c, db := db }
  | .ok (some removedDao, c) =>
    { messages := c
      db := db
      apiEvents := [{ event := .messageRemoved, conversationId := removedDao.row.conversationId, messageId := msgId }] }

/-- The event a handler is called for; events for the other listeners change nothing here. -/
def notify (c : MessagesImpl) (db : Db) : Event → Effect
  | .messageAdded _ msgId => c.messageAdded db msgId
  | .messageModified _ msgId => c.messageModified db msgId
  | .conversationWillBeRemoved convId => c.conversationWillBeRemoved db convId
  | .messageRemoved _ msgId => c.messageRemoved db msgId
  | _ => { messages := c, db := db }

/-! ### The two maps -/

/-- The conversation a message is cached with. -/
def conversationOf (c : MessagesImpl) (msgId : IdType) : Option IdType :=
  (c.messages.find? msgId).map fun dao => dao.row.conversationId

/-- Each cached message is in the list of its conversation, once, and in no other. -/
def Listed (c : MessagesImpl) : Prop :=
  ∀ convId msgId, (c.idsForConvId convId).count msgId = if c.conversationOf msgId = some convId then 1 else 0

variable {c : MessagesImpl} {dao : MessageDao}

private theorem Listed.count_of_uncached (h : c.Listed) {msgId : IdType} (hfree : c.messages.find? msgId = none)
    (convId : IdType) : (c.idsForConvId convId).count msgId = 0 := by
  rw [h, conversationOf, hfree, Option.map_none, if_neg (by simp)]

/-- The cache with one more message. -/
theorem Listed.insert (h : c.Listed) (hfree : c.messages.find? dao.row.id = none) {ids : List IdType}
    (hids : ids.Perm (c.idsForConvId dao.row.conversationId ++ [dao.row.id])) :
    Listed
      { idsForConvId := Function.update c.idsForConvId dao.row.conversationId ids
        messages := c.messages.insertOrIgnore dao } := by
  intro convId msgId
  unfold conversationOf
  dsimp only
  rw [Table.find?_insertOrIgnore]
  by_cases hid : dao.row.id = msgId
  · subst hid
    rw [if_pos rfl, hfree, Option.getD_none, Option.map_some]
    by_cases hconv : dao.row.conversationId = convId
    · subst hconv
      rw [if_pos rfl, Function.update_self, hids.count_eq, List.count_append, h.count_of_uncached hfree,
        List.count_singleton_self]
    · rw [if_neg (by simpa using hconv), Function.update_of_ne (Ne.symm hconv), h.count_of_uncached hfree]
  · rw [if_neg hid]
    by_cases hconv : dao.row.conversationId = convId
    · subst hconv
      have hne : (dao.row.id == msgId) = false := by simpa using hid
      rw [Function.update_self, hids.count_eq, List.count_append, List.count_singleton, hne]
      exact h _ msgId
    · rw [Function.update_of_ne (Ne.symm hconv)]
      exact h convId msgId

/-- The cache without a message. -/
def erase (c : MessagesImpl) (dao : MessageDao) : MessagesImpl where
  idsForConvId :=
    Function.update c.idsForConvId dao.row.conversationId ((c.idsForConvId dao.row.conversationId).erase dao.row.id)
  messages := c.messages.deleteWhere (fun dao' => dao'.row.id == dao.row.id)

theorem id_of_find? {msgId : IdType} (h : c.messages.find? msgId = some dao) : dao.row.id = msgId := by
  have hkey := Table.key_of_find? h
  exact hkey

theorem find?_erase (c : MessagesImpl) (dao : MessageDao) (msgId : IdType) :
    (c.erase dao).messages.find? msgId = if dao.row.id = msgId then none else c.messages.find? msgId := by
  unfold erase
  rw [Table.find?_deleteWhere]
  cases hfind : c.messages.find? msgId with
  | none => simp
  | some dao' =>
    have hkey := id_of_find? hfind
    by_cases hid : dao.row.id = msgId
    · simp [hid, hkey]
    · have hne : (dao'.row.id == dao.row.id) = false := by simpa [hkey] using Ne.symm hid
      rw [if_neg hid, Option.filter_some, hne]
      rfl

theorem Listed.erase (h : c.Listed) (hcached : c.messages.find? dao.row.id = some dao) : (c.erase dao).Listed := by
  intro convId msgId
  have hcount := h convId msgId
  unfold conversationOf at hcount ⊢
  rw [find?_erase]
  unfold MessagesImpl.erase
  dsimp only
  by_cases hid : dao.row.id = msgId
  · subst hid
    rw [hcached] at hcount
    rw [if_pos rfl, Option.map_none, if_neg (by simp)]
    by_cases hconv : dao.row.conversationId = convId
    · subst hconv
      rw [Option.map_some, if_pos rfl] at hcount
      rw [Function.update_self, List.count_erase_self, hcount]
    · rw [Option.map_some, if_neg (by simpa using hconv)] at hcount
      rw [Function.update_of_ne (Ne.symm hconv), hcount]
  · rw [if_neg hid, ← hcount]
    by_cases hconv : dao.row.conversationId = convId
    · subst hconv
      rw [Function.update_self, List.count_erase_of_ne (Ne.symm hid)]
    · rw [Function.update_of_ne (Ne.symm hconv)]

/-- The assertion holds in a cache whose messages are listed. -/
theorem Listed.removeFromCache (h : c.Listed) (hcached : c.messages.find? dao.row.id = some dao) :
    c.removeFromCache dao.row.id = .ok (some dao, c.erase dao) := by
  have hcount := h dao.row.conversationId dao.row.id
  rw [conversationOf, hcached, Option.map_some, if_pos rfl] at hcount
  have hmem : (c.idsForConvId dao.row.conversationId).contains dao.row.id = true := by
    rw [List.contains_iff_mem]
    exact List.count_pos_iff.mp (by rw [hcount]; exact Nat.one_pos)
  unfold MessagesImpl.removeFromCache
  rw [hcached]
  dsimp only
  rw [hmem]
  rfl

theorem removeFromCache_of_none {msgId : IdType} (h : c.messages.find? msgId = none) :
    c.removeFromCache msgId = .ok (none, c) := by
  unfold removeFromCache
  rw [h]

/-- The messages with which the cache is constructed. -/
theorem foldl_emplace {daos : List MessageDao} (h : c.Listed) (hnodup : (daos.map fun dao => dao.row.id).Nodup)
    (hfree : ∀ dao ∈ daos, c.messages.find? dao.row.id = none) :
    (daos.foldl emplace c).Listed ∧ ∀ msgId dao, (daos.foldl emplace c).messages.find? msgId = some dao ↔
      c.messages.find? msgId = some dao ∨ dao ∈ daos ∧ dao.row.id = msgId := by
  induction daos generalizing c with
  | nil => exact ⟨h, by simp⟩
  | cons dao daos ih =>
    rw [List.map_cons, List.nodup_cons] at hnodup
    have hhead := hfree dao List.mem_cons_self
    have hfind : ∀ msgId, (c.emplace dao).messages.find? msgId =
        if dao.row.id = msgId then some dao else c.messages.find? msgId := by
      intro msgId
      unfold emplace
      rw [Table.find?_insertOrIgnore]
      split
      · next hid => rw [← hid, hhead, Option.getD_none]
      · rfl
    have hrest : ∀ dao' ∈ daos, (c.emplace dao).messages.find? dao'.row.id = none := by
      intro dao' hdao'
      rw [hfind, if_neg, hfree dao' (List.mem_cons_of_mem _ hdao')]
      intro hid
      exact hnodup.1 (hid ▸ List.mem_map_of_mem hdao')
    have hemplaced : (c.emplace dao).Listed := h.insert hhead (List.Perm.refl _)
    obtain ⟨hlisted, hcached⟩ := ih hemplaced hnodup.2 hrest
    refine ⟨hlisted, ?_⟩
    intro msgId dao'
    rw [List.foldl_cons, hcached, hfind, List.mem_cons]
    by_cases hid : dao.row.id = msgId
    · subst hid
      rw [if_pos rfl, hhead]
      constructor
      · rintro (heq | ⟨hmem, hid⟩)
        · cases heq
          exact .inr ⟨.inl rfl, rfl⟩
        · exact .inr ⟨.inr hmem, hid⟩
      · rintro (heq | ⟨rfl | hmem, hid⟩)
        · cases heq
        · exact .inl rfl
        · exact .inr ⟨hmem, hid⟩
    · rw [if_neg hid]
      constructor
      · rintro (hold | ⟨hmem, hid'⟩)
        · exact .inl hold
        · exact .inr ⟨.inr hmem, hid'⟩
      · rintro (hold | ⟨rfl | hmem, hid'⟩)
        · exact .inl hold
        · exact absurd hid' hid
        · exact .inr ⟨hmem, hid'⟩

theorem listed_empty : Listed {} := by
  intro convId msgId
  rfl

theorem listed_construct (db : Db) : (construct db).Listed :=
  (foldl_emplace listed_empty (MessageDao.nodup_all db) fun _ _ => rfl).1

theorem find?_construct {db : Db} {msgId : IdType} :
    (construct db).messages.find? msgId = some dao ↔ dao ∈ MessageDao.all db ∧ dao.row.id = msgId := by
  have hcached := (foldl_emplace listed_empty (MessageDao.nodup_all db) fun _ _ => rfl).2 msgId dao
  refine hcached.trans ?_
  constructor
  · rintro (hempty | hmem)
    · cases hempty
    · exact hmem
  · exact .inr

/-- A dao of the cache that is written over keeps its place. -/
theorem Listed.replace (h : c.Listed) {dao' : MessageDao} (hcached : c.messages.find? dao.row.id = some dao)
    (hconv : dao'.row.conversationId = dao.row.conversationId)
    {messages : Table (fun dao : MessageDao => dao.row.id)}
    (hmessages : ∀ msgId, messages.find? msgId = if dao.row.id = msgId then some dao' else c.messages.find? msgId) :
    Listed { c with messages := messages } := by
  intro convId msgId
  have hcount := h convId msgId
  unfold conversationOf at hcount ⊢
  rw [hmessages]
  by_cases hmsg : dao.row.id = msgId
  · subst hmsg
    rw [hcached] at hcount
    rw [if_pos rfl, Option.map_some, hconv]
    exact hcount
  · rw [if_neg hmsg]
    exact hcount

end MessagesImpl

end KulloClient
